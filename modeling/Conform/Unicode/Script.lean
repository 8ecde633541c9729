import Conform.Unicode.Runs

/-!
# Scripts

The property `Script` of every code point, the names its values go by, and the
characters that are used in other scripts than their own. The letter `A` in the
table stands for code points that belong to no script.
-/

namespace Conform

namespace Unicode

namespace Script

/--
The scripts: the letter of each in the table, and its names in lower case
without separators.
-/
def names : List (Char × List String) := [
  ('y', ["adlam", "adlm"]),
  ('z', ["ahom"]),
  ('Ш', ["anatolianhieroglyphs", "hluw"]),
  ('C', ["arab", "arabic"]),
  ('p', ["armenian", "armn"]),
  ('Ω', ["avestan", "avst"]),
  ('α', ["bali", "balinese"]),
  ('β', ["bamu", "bamum"]),
  ('γ', ["bass", "bassavah"]),
  ('δ', ["batak", "batk"]),
  ('L', ["beng", "bengali"]),
  ('q', ["bhaiksuki", "bhks"]),
  ('Α', ["bopo", "bopomofo"]),
  ('Β', ["brah", "brahmi"]),
  ('Щ', ["brai", "braille"]),
  ('ε', ["bugi", "buginese"]),
  ('Ъ', ["buhd", "buhid"]),
  ('Γ', ["canadianaboriginal", "cans"]),
  ('Ы', ["cari", "carian"]),
  ('ζ', ["aghb", "caucasianalbanian"]),
  ('η', ["cakm", "chakma"]),
  ('r', ["cham"]),
  ('Δ', ["cher", "cherokee"]),
  ('Ь', ["chorasmian", "chrs"]),
  ('B', ["common", "zyyy"]),
  ('Ε', ["copt", "coptic", "qaac"]),
  ('s', ["cuneiform", "xsux"]),
  ('e', ["cprt", "cypriot"]),
  ('Э', ["cpmn", "cyprominoan"]),
  ('U', ["cyrillic", "cyrl"]),
  ('Ю', ["deseret", "dsrt"]),
  ('j', ["deva", "devanagari"]),
  ('X', ["diak", "divesakuru"]),
  ('Я', ["dogr", "dogra"]),
  ('k', ["dupl", "duployan"]),
  ('а', ["egyp", "egyptianhieroglyphs"]),
  ('б', ["elba", "elbasan"]),
  ('в', ["elym", "elymaic"]),
  ('E', ["ethi", "ethiopic"]),
  ('V', ["geor", "georgian"]),
  ('f', ["glag", "glagolitic"]),
  ('г', ["goth", "gothic"]),
  ('K', ["gran", "grantha"]),
  ('F', ["greek", "grek"]),
  ('M', ["gujarati", "gujr"]),
  ('g', ["gong", "gunjalagondi"]),
  ('J', ["gurmukhi", "guru"]),
  ('H', ["han", "hani"]),
  ('N', ["hang", "hangul"]),
  ('θ', ["hanifirohingya", "rohg"]),
  ('д', ["hano", "hanunoo"]),
  ('Ζ', ["hatr", "hatran"]),
  ('W', ["hebr", "hebrew"]),
  ('h', ["hira", "hiragana"]),
  ('ι', ["armi", "imperialaramaic"]),
  ('G', ["inherited", "qaai", "zinh"]),
  ('κ', ["inscriptionalpahlavi", "phli"]),
  ('λ', ["inscriptionalparthian", "prti"]),
  ('Η', ["java", "javanese"]),
  ('μ', ["kaithi", "kthi"]),
  ('Q', ["kannada", "knda"]),
  ('O', ["kana", "katakana"]),
  ('Θ', ["kawi"]),
  ('ν', ["kali", "kayahli"]),
  ('Y', ["khar", "kharoshthi"]),
  ('ξ', ["khitansmallscript", "kits"]),
  ('t', ["khmer", "khmr"]),
  ('ο', ["khoj", "khojki"]),
  ('π', ["khudawadi", "sind"]),
  ('T', ["lao", "laoo"]),
  ('D', ["latin", "latn"]),
  ('Ι', ["lepc", "lepcha"]),
  ('l', ["limb", "limbu"]),
  ('Κ', ["lina", "lineara"]),
  ('a', ["linb", "linearb"]),
  ('ρ', ["lisu"]),
  ('е', ["lyci", "lycian"]),
  ('ς', ["lydi", "lydian"]),
  ('ж', ["mahajani", "mahj"]),
  ('з', ["maka", "makasar"]),
  ('b', ["malayalam", "mlym"]),
  ('σ', ["mand", "mandaic"]),
  ('τ', ["mani", "manichaean"]),
  ('Λ', ["marc", "marchen"]),
  ('c', ["gonm", "masaramgondi"]),
  ('и', ["medefaidrin", "medf"]),
  ('Μ', ["meeteimayek", "mtei"]),
  ('υ', ["mend", "mendekikakui"]),
  ('Ν', ["merc", "meroiticcursive"]),
  ('й', ["mero", "meroitichieroglyphs"]),
  ('Ξ', ["miao", "plrd"]),
  ('φ', ["modi"]),
  ('i', ["mong", "mongolian"]),
  ('Ο', ["mro", "mroo"]),
  ('m', ["mult", "multani"]),
  ('Π', ["myanmar", "mymr"]),
  ('χ', ["nabataean", "nbat"]),
  ('к', ["nagm", "nagmundari"]),
  ('Ρ', ["nand", "nandinagari"]),
  ('u', ["newtailue", "talu"]),
  ('ψ', ["newa"]),
  ('ω', ["nko", "nkoo"]),
  ('А', ["nshu", "nushu"]),
  ('v', ["hmnp", "nyiakengpuachuehmong"]),
  ('л', ["ogam", "ogham"]),
  ('м', ["olchiki", "olck"]),
  ('Σ', ["hung", "oldhungarian"]),
  ('Б', ["ital", "olditalic"]),
  ('н', ["narb", "oldnortharabian"]),
  ('о', ["oldpermic", "perm"]),
  ('В', ["oldpersian", "xpeo"]),
  ('п', ["oldsogdian", "sogo"]),
  ('р', ["oldsoutharabian", "sarb"]),
  ('с', ["oldturkic", "orkh"]),
  ('т', ["olduyghur", "ougr"]),
  ('P', ["oriya", "orya"]),
  ('Г', ["osage", "osge"]),
  ('Д', ["osma", "osmanya"]),
  ('n', ["hmng", "pahawhhmong"]),
  ('у', ["palm", "palmyrene"]),
  ('ф', ["pauc", "paucinhau"]),
  ('х', ["phag", "phagspa"]),
  ('Е', ["phnx", "phoenician"]),
  ('Τ', ["phlp", "psalterpahlavi"]),
  ('Ж', ["rejang", "rjng"]),
  ('З', ["runic", "runr"]),
  ('И', ["samaritan", "samr"]),
  ('Й', ["saur", "saurashtra"]),
  ('ц', ["sharada", "shrd"]),
  ('ч', ["shavian", "shaw"]),
  ('К', ["sidd", "siddham"]),
  ('Υ', ["sgnw", "signwriting"]),
  ('R', ["sinh", "sinhala"]),
  ('ш', ["sogd", "sogdian"]),
  ('Л', ["sora", "sorasompeng"]),
  ('щ', ["soyo", "soyombo"]),
  ('М', ["sund", "sundanese"]),
  ('ъ', ["sylo", "sylotinagri"]),
  ('w', ["syrc", "syriac"]),
  ('Н', ["tagalog", "tglg"]),
  ('Φ', ["tagb", "tagbanwa"]),
  ('О', ["taile", "tale"]),
  ('o', ["lana", "taitham"]),
  ('П', ["taiviet", "tavt"]),
  ('Р', ["takr", "takri"]),
  ('I', ["tamil", "taml"]),
  ('С', ["tangsa", "tnsa"]),
  ('x', ["tang", "tangut"]),
  ('S', ["telu", "telugu"]),
  ('ы', ["thaa", "thaana"]),
  ('Т', ["thai"]),
  ('d', ["tibetan", "tibt"]),
  ('Χ', ["tfng", "tifinagh"]),
  ('У', ["tirh", "tirhuta"]),
  ('ь', ["toto"]),
  ('Ф', ["ugar", "ugaritic"]),
  ('э', ["vai", "vaii"]),
  ('Z', ["vith", "vithkuqi"]),
  ('Х', ["wancho", "wcho"]),
  ('Ц', ["wara", "warangciti"]),
  ('Ψ', ["yezi", "yezidi"]),
  ('Ч', ["yi", "yiii"]),
  ('ю', ["zanabazarsquare", "zanb"])]

/-- The runs of code points of one script. -/
def lines : List String := [
  "B65D26B6D26B47DB15DB5D23BD31BD449B39D5B5Α2B20G112F4BF3A2F4BFA4FBFBF3AFAF20AF63Ε14F16U133G2",
  "U169Ap38A2p50A2p3AW55A8W27A4W6A11C5BC6BC14BC3BC32BC10G11C26GC108BC34w14Aw60A2w3C48ы50A14ω59",
  "A2ω3И46A2И15Aσ28A2σAw11A5C31AC2A6C74BC29j81G4j15B2j26L4AL8A2L2A2L22AL7ALA3L4A2L9A2L2A2L4A8L",
  "A4L2AL5A2L25A2J3AJ6A4J2A2J22AJ7AJ2AJ2AJ2A2JAJ5A4J2A2J3A3JA7J4AJA7J17A10M3AM9AM3AM22AM7AM2AM5",
  "A2M10AM3AM3A2MA15M4A2M12A7M7AP3AP8A2P2A2P22AP7AP2AP5A2P9A2P2A2P3A7P3A4P2AP5A2P18A10I2AI6A3I3",
  "AI4A3I2AIAI2A3I2A3I3A3I12A4I5A3I3AI4A2IA6IA14I21A5S13AS3AS23AS16A2S9AS3AS4A7S2AS3A2SA2S4A2",
  "S10A7S9Q13AQ3AQ23AQ10AQ5A2Q9AQ3AQ4A7Q2A6Q2AQ4A2Q10AQ3A12b13Ab3Ab51Ab3Ab6A4b16A2b26AR3AR18A3",
  "R24AR9ARA2R7A3RA4R6ARAR8A6R10A2R3A12Т58A4BТ28A37T2ATAT5AT24ATAT23A2T5ATAT7AT10A2T4A32d72Ad36",
  "A4d39Ad36Ad15Ad7B4d2A37Π160V38AVA5VA2V43BV4N256E73AE4A2E7AEAE4A2E41AE4A2E33AE4A2E7AEAE4A2E15",
  "AE57AE4A2E67A2E32A3E26A6Δ86A2Δ6A2Γ640л29A3З75B3З11A7Н22A9Нд21B2A9Ъ20A12Φ13AΦ3AΦ2A12t94A2t10",
  "A6t10A6i2B2iBi20A6i89A7i43A5Γ70A10l31Al12A4l12A4lA3l12О30A2О5A11u44A4u26A6u11A3u2t32ε28A2ε2",
  "o63Ao29A2o11A6o10A6o14A2G31A49α77A3α47AМ64δ52A8δ4Ι56A3Ι15A3Ι3м48U9A7V43A2V3М8A8G3BG13BG7B4G",
  "B6GB3G2BA5D38F5UD49F5D4F5D13UD70FG64D256F22A2F6A2F38A2F6A2F8AFAFAFAF31A2F53AF15AF14A2F6AF19",
  "A2F3AF9AB12G2B87AB11DA2B11DB15AD13A3B33A15G33A15B38FB3D2B6DB27DB17D41B3A4B663A25B11A21B928",
  "Щ256B628A2B32AB105f96D32Ε116A5Ε7V38AVA5VA2Χ56A7Χ2A14ΧE23A9E7AE7AE7AE7AE7AE7AE7AE7AU32B94A34",
  "H26AH89A12H214A26B12A4B5HBHB25H9G4N2B8H4B4Ah86A2G2B2h3BO90B2O3A5Α43AN94AB16Α32B36A12O16N31A",
  "B64N31B81O47BO88B168H6592B64H20992Ч1165A3Ч55A9ρ48э300A20U96β88A8B34D102B3D64A5D2ADAD5A24D14",
  "ъ45A3B10A6х56A8Й70A8Й12A6j32ν46BνЖ36A11ЖN29A3Η78ABΗ10A4Η2Π31Ar55A9r14A2r10A2r4Π32П67A24П5Μ23",
  "A10E6A2E6A2E6A9E7AE7AD43BD9FD4B2A4Δ80Μ46A2Μ10A6N11172A12N23A4N49A8452H366A2H106A38D7A12p5A5",
  "W26AW5AWAW2AW2AW10C115A16C363B2C80A2C54A7CA32C16G16B10A6G14U2B35AB19AB4A4C5AC135A2BAB32D26B6",
  "D26B11O10BO45B2N31A3N6A2N6A2N6A2N3A3B7AB7A10B5A2a12Aa26Aa19Aa2Aa15A2a14A34a123A5B3A4B45A3B9",
  "F79AB13A3FA47B45GA130е29A3Ы49A15GB27A4Б36A9Б3г27A5о43A5Ф30AФВ36A4В14A42Ю80ч48Д30A2Д10A6Г36A4",
  "Г36A4б40A8ζ52A11ζZ11AZ15AZ7AZ2AZ11AZ15AZ7AZ2A67Κ311A9Κ22A10Κ8A24D6AD42AD9A69e6A2eAe44Ae2A3e",
  "A2eι22Aι9у32χ31A8χ9A48Ζ19AΖ2A5Ζ5Е28A3Еς26A5ςA64й32Ν24A4Ν20A2Ν46Y4AY2A5Y8AY3AY29A2Y3A4Y10A7Y9",
  "A7р32н32A32τ39A4τ12A9Ω54A3Ω7λ22A2λ8κ19A5κ8Τ18A7Τ4A12Τ7A80с73A55Σ51A13Σ51A7Σ6θ40A8θ10A294C31A",
  "Ψ42AΨ3A2Ψ2A75C3п40A8ш42A22т26A38Ь28A20в23A9Β78A4Β36A9Βμ67A10μA2Л25A7Л10A6η53Aη18A8ж39A9ц96A",
  "R20A11ο18Aο47A62m7AmAm4Am15Am11A6π59A5π10A6K4AK8A2K2A2K22AK7AK2AK5AGK9A2K2A2K3A2KA6KA5K7A2K7",
  "A3K5A139ψ92Aψ5A30У72A8У10A166К54A2К38A34φ69A11φ10A6i13A19Р58A6Р10A54z27A2z15A4z23A185Я60A100",
  "Ц83A12ЦX7A2XA2X8AX2AX30AX2A2X12A9X10A70Ρ8A2Ρ46A2Ρ11A27ю72A8щ83A13Γ16ф57A7j10A246q9Aq45Aq14",
  "A10q29A3Λ32A2Λ22AΛ14A73c7Ac2Ac44A3cAc2Ac9A8c10A6g6Ag2Ag37Ag2Ag6A7g10A310з25A7Θ17AΘ41A3Θ28A86",
  "ρA15I50A13Is922A102s111As5A11s196A2636Э99A13а1110A4010Ш583A8633β569A7Ο31AΟ10A4Ο2С79AС10A6γ30",
  "A2γ6A10n70A10n10An7An21A5n19A688и91A101Ξ75A4Ξ57A7Ξ17A64xАH2ξA11H2A14x6136A8x768ξ470A42x9",
  "A8935O4AO7AO2AOh287O3A15hA29h3A2OA14O4A8А396A2308k107A5k13A3k9A7k10A2k4B4A4700G46A2G23A9B116",
  "A60B246A10B39A2B62G3B17G8B2G7B30G4B61A21F70A122B20A12B20A12B87A9B25A135B85AB71AB2A2BA2B2A2B4",
  "AB12ABAB7AB65AB4A2B8AB7AB28AB4AB5ABA3B7AB340A2B292A2B50Υ652A15Υ5AΥ15A1104D31A6D6A213f7Af17A2",
  "f7Af2Af5A5U62A33UA112v45A3v14A2v10A4v2A320ь31A17Х58A5ХA464к42A742E7AE4AE2AE15Aυ197A2υ16A41",
  "y76A4y10A4y2A785B68A76B61A194C4AC27AC2ACA2CAC10AC4ACACA6CA4CACACAC3AC2ACA2CACACACACAC2ACA2C4",
  "AC7AC4AC4ACAC10AC17A5C3AC5AC17A52C2A270B44A4B100A12B15A2B15AB15AB37A10B174A56B26hB2A13B44A4",
  "B9A7B2A14B6A154B984A4B17A3B13A3B119A4B95A6B12A4BA15B12A4B56A8B10A6B40A8B30A2B2A78B340A12B14",
  "A2B13A3B9A7B46AB7A8B14A4B9A7B9A7B147AB55A37B10A1030H42720A32H4154A6H222A2H5762A14H7473A3103",
  "H542A1506H4939A5H4192A711761BA30B96A128G240A196112"]

def runs : Runs := Runs.ofLines lines

/--
The scripts that characters are used in where these are not their own script alone: the letter of
each set in the table of extensions, and the letters of the scripts.
-/
def extensions : List (Char × String) := [
  ('a', "H"), ('b', "eΚa"), ('c', "CΕ"), ('d', "ΑNHhOЧ"), ('e', "KI"), ('f', "j"), ('g', "hO"),
  ('h', "D"), ('i', "Cw"), ('j', "CыΨ"), ('k', "jЯμж"), ('l', "Lηъ"), ('m', "Jm"), ('n', "Mο"),
  ('o', "QΡ"), ('p', "ηΠО"), ('q', "ΑNHhO"), ('r', "ea"), ('s', "Lj"), ('t', "HD"), ('u', "jц"),
  ('v', "F"), ('w', "Uf"), ('x', "jK"), ('y', "ΑH"), ('z', "jЯMJομжφπРУ"), ('A', "k"),
  ('B', "iх"), ('C', "jЯMJοQμжbφΡπРУ"), ('D', "jЯMJοQμжφΡπРУ"), ('E', "UD"), ('F', "CωθwыΨ"),
  ('G', "ЪдΦН"), ('H', "LjKQ"), ('I', "HhO"), ('J', "Cω"), ('K', "Cы"), ('L', "Эea"),
  ('M', "Uо"), ('N', "Cwы"), ('O', "yCωθwыΨ"), ('P', "yCστтΤθшw"), ('Q', "Cθ"),
  ('R', "LjKMJQDbPцISУ"), ('S', "LjKMJQDbPISУ"), ('T', "LjЯgcKMJQжbΡPπRъРISУ"),
  ('U', "LjЯgcKMJQlжbΡPπRъРISУ"), ('V', "VD"), ('W', "jQbPIS"), ('X', "jΡ"), ('Y', "LjKQΡPSУ"),
  ('Z', "jKQ"), ('α', "L"), ('β', "Ρ"), ('γ', "Uw"), ('δ', "w"), ('ε', "Di"), ('ζ', "jKD"),
  ('η', "jI"), ('θ', "νDΠ"), ('ι', "εΗ"), ('κ', "τт")]

/-- A point stands for characters that are used in their own script. -/
def extensionRuns : Runs := Runs.ofLines [
  ".834v.2v.29h13.275MwE2w.388F.14FN.2O.32P.10i11.10j10.6i.99Q.636RS.17TUk10.118l10.118m10.118",
  "n10.246e14.242o10.848p10.177V.1593G2.203B2.B.1226HfHxfs2usuWfu2f2usf7Xsf2sf4YxZs2αx2β.197v2",
  ".54γ.δ.564ε.192ζ.3410w.445d2q.2a.d10.qd8q4.10y4.2qg5.q.4I2a2.89g4.3g.90dg.147a16.32a36.60a40",
  ".56a49.15a12.51a.88a25.10a5.96a31.29296w.144t8.296C3D3z4.183s.η.58θ.160ι.21358J2.178K.10K.71",
  "q2.282d5.10g.45g2.352L2r.4b45.3r9.416c28.2038κ.2062e.e.55e2.3219e2.e.40140A4.5820a18.7902a2",
  ".986542"]

/-- The letter of the script that goes by a name. -/
def letter? (name : String) : Option Char :=
  (names.find? fun entry => entry.2.contains name).map Prod.fst

/-- Whether a character belongs to the script with a letter. -/
def holds (letter c : Char) : Bool := runs.letterAt c.toNat == letter

/-- Whether a character is used in the script with a letter. -/
def isUsed (letter c : Char) : Bool :=
  match extensions.lookup (extensionRuns.letterAt c.toNat) with
  | some scripts => scripts.toList.contains letter
  | none => holds letter c

end Script

end Unicode

end Conform
