import Conform.Unicode.Runs

/-!
# Writing directions

The direction in which a character is written, from its `Bidi_Class`: classes
that labels of domain names treat alike are one direction here, and unassigned
code points are counted to the run before them.
-/

namespace Conform

namespace Unicode

inductive Direction where
  | leftToRight
  | rightToLeft
  | arabicNumber
  | europeanNumber
  /-- A mark, written where the character before it is. -/
  | mark
  | neutral
  deriving DecidableEq, Repr

namespace Direction

/-- The direction that a letter of the table stands for. -/
def ofLetter (c : Char) : Direction :=
  match c with
  | 'l' => leftToRight
  | 'r' => rightToLeft
  | 'a' => arabicNumber
  | 'e' => europeanNumber
  | 'm' => mark
  | _ => neutral

def lines : List String := [
  "n48e10n7l26n6l26n47ln7e2nln3eln5l23nl31nl449n2l7n14l2n14l5n9ln17m112l4n2l8nl5n2lnl110nl140m7",
  "l256n7m45rmrm2rm2rm9r48a6n2rn2rnrn2m11r48m21a10na2r3mr101m7anm6r2m2nm4r2e10r23mr30m29r89m11",
  "r58m9r2n4r3mr24m4rm9rm3rm7r41m5r50a8m8r42m24am32l55mlml4m8l4ml3m7l10m2l29ml58ml4m6l6ml20m4",
  "l12n2l7nl2m5l57m2l3m24l23m2l3ml11m2l57ml4m8l4m3l18m4l11n8lm8l58ml2mlm6l6m10l11m4l28ml61ml12",
  "m3l35n13ml3ml55mlm3l5m18l10m4l18n7l2ml58ml15m9l13m4l26m2l57m2l4m5l7ml20m4l27ml72m5l3m6l89ml2",
  "m11nl7m8l98ml2m9l11m8l72m2l27mlmlmn4l51m14lm5lm2l5m49l8ml102m4lm6lm2l2m2l25m2l4m3l16m4l13ml2",
  "m2l6ml15ml703m3l48n16l96nl639nl26n5l114m3l29m2l30m14l18m14l52m2lm7l8ml2m11l7nlm3l16n27m3nm",
  "l117m2l34ml118m3l4m2l9ml6m7n6l152n34l23m2l2m3l56mlm9lml2m8l6m13l48m84l48mlm5lml5ml40m9l12m2",
  "l32m4l2m2lm3l56mlm2l3mlm3l58m8l2m5l149m3lm13lm7l4ml6ml3m2l198m64l445nln3l11n3l13n3l13n5l11",
  "n17lrn96el3e6n5le10n6l16n48m48n2ln4ln2l10nln3l5n6lnlnlnl4nl11n2l4n5l5n4l2n16l41n429l69n26l",
  "n242e20l78n450ln339l256n768l229n6l4m3l7n7l127ml96m32n517l3n25l9m4l2nl5n2l5n4l88m2n2l3nl90n",
  "l196n48l45n3l48n16l28n3l50n15l12n4l167n4l99n2l31nl6592n64l22160n64l317n3l95m4nm10n2l30m2l80",
  "m2l14n34l102nl121ml3ml4ml25m2ln4m4l8n8l52n12l68m10l18m18l13ml38m8l25m11l46m3l48ml2m4l2m2l39m",
  "l67m6l2m2l2m11l3ml8ml47ml51mlm3l2m2l5m2lml42m2l8m11l105n6l117ml2ml4m3l20269rmr10nr532n18r127",
  "n33r13n3m16n16m16n64r143n17e10n7l26n6l26n11l122n32l257nl62n77l3n64l45m131l96me31l118m10l1152",
  "r287nr225m15r40m8r165m6r78n7r484m12a16r288a32r43m2r153m11r49m4r122lml54m15l11n20l10ml2m2l10",
  "m3l49m4l2m2l7m11l51m3l36m5lm9l61ml12m2l52m9l10m4l2ml95m3l2mlm2l6m66l95ml3m13l16m2l57m2l3ml37",
  "m154l56m8l2m3lml23ml84m6lml4m2lm2l238m6l4m2lm2l27m36l51m8l2mlm2l31n32l43mlml2m6lml101m3l2m4l",
  "m9l255m9lm2l256m2lml4ml144m8l4ml32m6l2m2l40m6l2m4l8m9lm6l2m3l46m13lm2l406m14l84m23lm7lm2lm75",
  "l49m21lm9l64m3l2mlml347m2l224n42l19185m5l59m7l1048ml63m4l79nlm12l19629m2ln4704m80l535m3l9n8",
  "m8l2m7l30m4l59n89m3n155l32n96l891nl57nl57nl57nl57nl10e50l512m55l4m50l8ml14ml22m1125l256m256",
  "l48m7l375m18l44m4l15n1249l32r208m48r68m7r1445n528e11n5l31nl58n6l61n57l122n2448e1040l786433",
  "n255m196352"]

def runs : Runs := Runs.ofLines lines

/-- The direction of a character. -/
def ofChar (c : Char) : Direction := ofLetter (runs.letterAt c.toNat)

end Direction

end Unicode

end Conform
