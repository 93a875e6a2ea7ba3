import PlainSteps.Text.CodeSet
import PlainSteps.Text.Hidden

/-!
# Columns of a text

* `columns` : how many columns a text takes up where characters stand in columns. Ideographs and
  pictures take two, marks and joiners none.
* A picture may consist of several characters: one that is shown as a picture by the selector after
  it, one with a tint, or pictures joined to one. Such a picture takes two columns.
-/

namespace PlainSteps.Text

/-! ## Classes of characters -/

/-- The characters that are as wide as an ideograph. -/
def wideChars : CodeSet := ⟨[
    4352, 4448, 8986, 8988, 9001, 9003, 9193, 9197, 9200, 9201, 9203, 9204, 9725, 9727, 9748, 9750,
    9800, 9812, 9855, 9856, 9875, 9876, 9889, 9890, 9898, 9900, 9917, 9919, 9924, 9926, 9934, 9935,
    9940, 9941, 9962, 9963, 9970, 9972, 9973, 9974, 9978, 9979, 9981, 9982, 9989, 9990, 9994, 9996,
    10024, 10025, 10060, 10061, 10062, 10063, 10067, 10070, 10071, 10072, 10133, 10136, 10160,
    10161, 10175, 10176, 11035, 11037, 11088, 11089, 11093, 11094, 11904, 11930, 11931, 12020,
    12032, 12246, 12272, 12284, 12288, 12351, 12353, 12439, 12441, 12544, 12549, 12592, 12593,
    12687, 12688, 12772, 12784, 12831, 12832, 12872, 12880, 19904, 19968, 42125, 42128, 42183,
    43360, 43389, 44032, 55204, 63744, 64256, 65040, 65050, 65072, 65107, 65108, 65127, 65128,
    65132, 65281, 65377, 65504, 65511, 94176, 94181, 94192, 94194, 94208, 100344, 100352, 101590,
    101632, 101641, 110576, 110580, 110581, 110588, 110589, 110591, 110592, 110883, 110898, 110899,
    110928, 110931, 110933, 110934, 110948, 110952, 110960, 111356, 126980, 126981, 127183, 127184,
    127374, 127375, 127377, 127387, 127488, 127491, 127504, 127548, 127552, 127561, 127568, 127570,
    127584, 127590, 127744, 127777, 127789, 127798, 127799, 127869, 127870, 127892, 127904, 127947,
    127951, 127956, 127968, 127985, 127988, 127989, 127992, 128063, 128064, 128065, 128066, 128253,
    128255, 128318, 128331, 128335, 128336, 128360, 128378, 128379, 128405, 128407, 128420, 128421,
    128507, 128592, 128640, 128710, 128716, 128717, 128720, 128723, 128725, 128728, 128732, 128736,
    128747, 128749, 128756, 128765, 128992, 129004, 129008, 129009, 129292, 129339, 129340, 129350,
    129351, 129536, 129648, 129661, 129664, 129673, 129680, 129726, 129727, 129734, 129742, 129756,
    129760, 129769, 129776, 129785, 131072, 196606, 196608, 262142]⟩

/-- The property `Default_Ignorable_Code_Point`. -/
def ignorableChars : CodeSet := ⟨[
    173, 174, 847, 848, 1564, 1565, 4447, 4449, 6068, 6070, 6155, 6160, 8203, 8208, 8234, 8239,
    8288, 8304, 12644, 12645, 65024, 65040, 65279, 65280, 65440, 65441, 65520, 65529, 113824,
    113828, 119155, 119163, 917504, 921600]⟩

/-- Middle and final letters of Korean syllables. -/
def syllableTailChars : CodeSet := ⟨[4448, 4608, 55216, 55239, 55243, 55292]⟩

/-- Signs that enclose what stands after them. -/
def enclosingChars : CodeSet := ⟨[1541, 1542, 1807, 1808, 2192, 2194, 2274, 2275, 43258, 43259]⟩

/-- The characters that can be shown as pictures. -/
def picturableChars : CodeSet := ⟨[
    35, 36, 42, 43, 48, 58, 169, 170, 174, 175, 8252, 8253, 8265, 8266, 8482, 8483, 8505, 8506,
    8596, 8602, 8617, 8619, 8986, 8988, 9000, 9001, 9167, 9168, 9193, 9204, 9208, 9211, 9410, 9411,
    9642, 9644, 9654, 9655, 9664, 9665, 9723, 9727, 9728, 9733, 9742, 9743, 9745, 9746, 9748, 9750,
    9752, 9753, 9757, 9758, 9760, 9761, 9762, 9764, 9766, 9767, 9770, 9771, 9774, 9776, 9784, 9787,
    9792, 9793, 9794, 9795, 9800, 9812, 9823, 9825, 9827, 9828, 9829, 9831, 9832, 9833, 9851, 9852,
    9854, 9856, 9874, 9880, 9881, 9882, 9883, 9885, 9888, 9890, 9895, 9896, 9898, 9900, 9904, 9906,
    9917, 9919, 9924, 9926, 9928, 9929, 9934, 9936, 9937, 9938, 9939, 9941, 9961, 9963, 9968, 9974,
    9975, 9979, 9981, 9982, 9986, 9987, 9989, 9990, 9992, 9998, 9999, 10000, 10002, 10003, 10004,
    10005, 10006, 10007, 10013, 10014, 10017, 10018, 10024, 10025, 10035, 10037, 10052, 10053,
    10055, 10056, 10060, 10061, 10062, 10063, 10067, 10070, 10071, 10072, 10083, 10085, 10133,
    10136, 10145, 10146, 10160, 10161, 10175, 10176, 10548, 10550, 11013, 11016, 11035, 11037,
    11088, 11089, 11093, 11094, 12336, 12337, 12349, 12350, 12951, 12952, 12953, 12954, 126980,
    126981, 127183, 127184, 127344, 127346, 127358, 127360, 127374, 127375, 127377, 127387, 127462,
    127488, 127489, 127491, 127514, 127515, 127535, 127536, 127538, 127547, 127568, 127570, 127744,
    127778, 127780, 127892, 127894, 127896, 127897, 127900, 127902, 127985, 127987, 127990, 127991,
    128254, 128255, 128318, 128329, 128335, 128336, 128360, 128367, 128369, 128371, 128379, 128391,
    128392, 128394, 128398, 128400, 128401, 128405, 128407, 128420, 128422, 128424, 128425, 128433,
    128435, 128444, 128445, 128450, 128453, 128465, 128468, 128476, 128479, 128481, 128482, 128483,
    128484, 128488, 128489, 128495, 128496, 128499, 128500, 128506, 128592, 128640, 128710, 128715,
    128723, 128725, 128728, 128732, 128742, 128745, 128746, 128747, 128749, 128752, 128753, 128755,
    128765, 128992, 129004, 129008, 129009, 129292, 129339, 129340, 129350, 129351, 129536, 129648,
    129661, 129664, 129673, 129680, 129726, 129727, 129734, 129742, 129756, 129760, 129769, 129776,
    129785]⟩

/-- The characters that are shown as pictures by themselves. -/
def pictureChars : CodeSet := ⟨[
    8986, 8988, 9193, 9197, 9200, 9201, 9203, 9204, 9725, 9727, 9748, 9750, 9800, 9812, 9855, 9856,
    9875, 9876, 9889, 9890, 9898, 9900, 9917, 9919, 9924, 9926, 9934, 9935, 9940, 9941, 9962, 9963,
    9970, 9972, 9973, 9974, 9978, 9979, 9981, 9982, 9989, 9990, 9994, 9996, 10024, 10025, 10060,
    10061, 10062, 10063, 10067, 10070, 10071, 10072, 10133, 10136, 10160, 10161, 10175, 10176,
    11035, 11037, 11088, 11089, 11093, 11094, 126980, 126981, 127183, 127184, 127374, 127375,
    127377, 127387, 127462, 127488, 127489, 127490, 127514, 127515, 127535, 127536, 127538, 127543,
    127544, 127547, 127568, 127570, 127744, 127777, 127789, 127798, 127799, 127869, 127870, 127892,
    127904, 127947, 127951, 127956, 127968, 127985, 127988, 127989, 127992, 128063, 128064, 128065,
    128066, 128253, 128255, 128318, 128331, 128335, 128336, 128360, 128378, 128379, 128405, 128407,
    128420, 128421, 128507, 128592, 128640, 128710, 128716, 128717, 128720, 128723, 128725, 128728,
    128732, 128736, 128747, 128749, 128756, 128765, 128992, 129004, 129008, 129009, 129292, 129339,
    129340, 129350, 129351, 129536, 129648, 129661, 129664, 129673, 129680, 129726, 129727, 129734,
    129742, 129756, 129760, 129769, 129776, 129785]⟩

/-- The pictures that can have a tint. -/
def tintableChars : CodeSet := ⟨[
    9757, 9758, 9977, 9978, 9994, 9998, 127877, 127878, 127938, 127941, 127943, 127944, 127946,
    127949, 128066, 128068, 128070, 128081, 128102, 128121, 128124, 128125, 128129, 128132, 128133,
    128136, 128143, 128144, 128145, 128146, 128170, 128171, 128372, 128374, 128378, 128379, 128400,
    128401, 128405, 128407, 128581, 128584, 128587, 128592, 128675, 128676, 128692, 128695, 128704,
    128705, 128716, 128717, 129292, 129293, 129295, 129296, 129304, 129312, 129318, 129319, 129328,
    129338, 129340, 129343, 129399, 129400, 129461, 129463, 129464, 129466, 129467, 129468, 129485,
    129488, 129489, 129502, 129731, 129734, 129776, 129785]⟩

/-- The tints. -/
def tintChars : CodeSet := ⟨[127995, 128000]⟩

/-- The letters of flags, two of which make a picture. -/
def flagChars : CodeSet := ⟨[127462, 127488]⟩

/-- The Arabic letters of the form of lam. -/
def lamChars : CodeSet := ⟨[
    1604, 1605, 1717, 1721, 1898, 1899, 2214, 2215, 2247, 2248]⟩

/-- The Arabic letters of the form of alef, which make one shape with a lam before them. -/
def alefChars : CodeSet := ⟨[
    1570, 1572, 1573, 1574, 1575, 1576, 1649, 1652, 1653, 1654, 1907, 1909, 2160, 2179]⟩

/-- A character that takes up no column. -/
def isWidthless (c : Char) : Bool :=
  joinsPrevious c || ignorableChars.holds c || syllableTailChars.holds c || enclosingChars.holds c

/-- The columns of a character that stands alone. -/
def charColumns (c : Char) : Nat :=
  if c.toNat = 0x17d8 then 3
  else if c.toNat = 0x115f ∨ c.toNat = 0x17a4 then 2
  else if c.toNat = 0x2d7f then 1
  else if isWidthless c then 0
  else if wideChars.holds c then 2
  else 1

/-! ## Texts -/

/-- The character that joins two pictures. -/
def joiner : Char := Char.ofNat 0x200d

/-- The character that selects the picture for a character. -/
def pictureSelector : Char := Char.ofNat 0xfe0f

/-- What stands before a character. -/
inductive Before where
  /-- A picture that can have a tint. -/
  | tintable
  /-- Any other picture. -/
  | picture
  /-- A picture and a joiner. -/
  | joined
  /-- A lam, perhaps with marks. -/
  | lam
  | other
  deriving DecidableEq, Repr

/-- Whether a picture begins with a character, given the one after it. -/
def beginsPicture (c : Char) (next : Option Char) : Bool :=
  (pictureChars.holds c && !flagChars.holds c) ||
    (picturableChars.holds c && next == some pictureSelector) ||
    (tintableChars.holds c && next.any tintChars.holds)

/-- The columns of a text after what stands before it. -/
def columnsAfter (before : Before) : List Char → Nat
  | [] => 0
  | c :: s =>
    if before = .tintable ∧ tintChars.holds c then columnsAfter .picture s
    else if beginsPicture c s.head? then
      (if before = .joined then 0 else 2) +
        columnsAfter (if tintableChars.holds c then .tintable else .picture) s
    else if (before = .picture ∨ before = .tintable) ∧ c = joiner then columnsAfter .joined s
    else if (before = .picture ∨ before = .tintable) ∧ isWidthless c then columnsAfter .picture s
    else if before = .lam ∧ isWidthless c then columnsAfter .lam s
    else if before = .lam ∧ alefChars.holds c then columnsAfter .other s
    else if c = '\r' ∧ s.head? = some '\n' then columnsAfter .other s
    else charColumns c + columnsAfter (if lamChars.holds c then .lam else .other) s

/-- The columns of a text. -/
def columns (s : String) : Nat :=
  columnsAfter .other s.toList

end PlainSteps.Text
