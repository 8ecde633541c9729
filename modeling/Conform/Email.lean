import Conform.Text.Blank

/-!
# Email addresses

A mailbox, an at sign, and a domain with a point inside it; no blank anywhere.
-/

namespace Conform

namespace Email

/-- Whether text is a domain: it holds a point, neither first nor last, and no at sign. -/
def isDomain (cs : List Char) : Bool :=
  !cs.contains '@' && cs.contains '.' && cs.head? != some '.' && cs.getLast? != some '.'

/-- Whether a text is an address. -/
def isAddress (s : String) : Bool :=
  match Text.cutChars '@' s.toList with
  | (mailbox, some domain) => !mailbox.isEmpty && isDomain domain && !s.toList.any Text.isBlank
  | (_, none) => false

end Email

end Conform
