/-!
# Upper case

The upper case of a text by the full mapping of Unicode 14: most characters map to one character, a few to
two or three.
-/

namespace Labyrinth.Text

/-- Stretches in which upper and lower case characters take turns, from one lower case character to another. -/
def upperTurns : List (Nat × Nat) := [
  (257,303),(307,311),(314,328),(331,375),(378,382),(387,389),(392,392),(396,396),(402,402),(409,409),(417,421),
  (424,424),(429,429),(432,432),(436,438),(441,441),(445,445),(453,453),(456,456),(459,459),(462,476),(479,495),
  (498,498),(501,501),(505,543),(547,563),(572,572),(578,578),(583,591),(881,883),(887,887),(985,1007),(1016,1016),
  (1019,1019),(1121,1153),(1163,1215),(1218,1230),(1233,1327),(7681,7829),(7841,7935),(8580,8580),(11361,11361),
  (11368,11372),(11379,11379),(11382,11382),(11393,11491),(11500,11502),(11507,11507),(42561,42605),(42625,42651),
  (42787,42799),(42803,42863),(42874,42876),(42879,42887),(42892,42892),(42897,42899),(42903,42921),(42933,42947),
  (42952,42954),(42961,42961),(42967,42969),(42998,42998)]

/-- Stretches with one distance to the upper case. -/
def upperShifts : List (Nat × Nat × Int) := [
  (224,246,-32),(248,254,-32),(575,576,10815),(598,599,-205),(650,651,-217),(891,893,130),(941,943,-37),(945,961,-32),
  (963,971,-32),(973,974,-63),(1072,1103,-32),(1104,1119,-80),(1377,1414,-48),(4304,4346,3008),(4349,4351,3008),
  (5112,5117,-8),(7299,7300,-6242),(7936,7943,8),(7952,7957,8),(7968,7975,8),(7984,7991,8),(8000,8005,8),
  (8017,8023,8),(8032,8039,8),(8048,8049,74),(8050,8053,86),(8054,8055,100),(8056,8057,128),(8058,8059,112),
  (8060,8061,126),(8112,8113,8),(8144,8145,8),(8160,8161,8),(8560,8575,-16),(9424,9449,-26),(11312,11359,-48),
  (11520,11557,-7264),(43888,43967,-38864),(65345,65370,-32),(66600,66639,-40),(66776,66811,-40),(66967,66977,-39),
  (66979,66993,-39),(66995,67001,-39),(67003,67004,-39),(68800,68850,-64),(71872,71903,-32),(93792,93823,-32),
  (125218,125251,-34)]

/-- Single characters with their distances to the upper case. -/
def upperSingles : List (Nat × Int) := [
  (181,743),(255,121),(305,-232),(383,-300),(384,195),(405,97),(410,163),(414,130),(447,56),(454,-2),(457,-2),
  (460,-2),(477,-79),(499,-2),(592,10783),(593,10780),(594,10782),(595,-210),(596,-206),(601,-202),(603,-203),
  (604,42319),(608,-205),(609,42315),(611,-207),(613,42280),(614,42308),(616,-209),(617,-211),(618,42308),(619,10743),
  (620,42305),(623,-211),(625,10749),(626,-213),(629,-214),(637,10727),(640,-218),(642,42307),(643,-218),(647,42282),
  (648,-218),(649,-69),(652,-71),(658,-219),(669,42261),(670,42258),(837,84),(940,-38),(962,-31),(972,-64),(976,-62),
  (977,-57),(981,-47),(982,-54),(983,-8),(1008,-86),(1009,-80),(1010,7),(1011,-116),(1013,-96),(1231,-15),
  (7296,-6254),(7297,-6253),(7298,-6244),(7301,-6243),(7302,-6236),(7303,-6181),(7304,35266),(7545,35332),(7549,3814),
  (7566,35384),(7835,-59),(8126,-7205),(8165,7),(8526,-28),(11365,-10795),(11366,-10792),(11559,-7264),(11565,-7264),
  (42900,48),(43859,-928)]

/-- Characters whose upper case is several characters. -/
def upperExpansions : List (Nat × List Nat) := [
  (223,[83,83]),(329,[700,78]),(496,[74,780]),(912,[921,776,769]),(944,[933,776,769]),(1415,[1333,1362]),
  (7830,[72,817]),(7831,[84,776]),(7832,[87,778]),(7833,[89,778]),(7834,[65,702]),(8016,[933,787]),
  (8018,[933,787,768]),(8020,[933,787,769]),(8022,[933,787,834]),(8114,[8122,921]),(8115,[913,921]),(8116,[902,921]),
  (8118,[913,834]),(8119,[913,834,921]),(8124,[913,921]),(8130,[8138,921]),(8131,[919,921]),(8132,[905,921]),
  (8134,[919,834]),(8135,[919,834,921]),(8140,[919,921]),(8146,[921,776,768]),(8147,[921,776,769]),(8150,[921,834]),
  (8151,[921,776,834]),(8162,[933,776,768]),(8163,[933,776,769]),(8164,[929,787]),(8166,[933,834]),
  (8167,[933,776,834]),(8178,[8186,921]),(8179,[937,921]),(8180,[911,921]),(8182,[937,834]),(8183,[937,834,921]),
  (8188,[937,921]),(64256,[70,70]),(64257,[70,73]),(64258,[70,76]),(64259,[70,70,73]),(64260,[70,70,76]),
  (64261,[83,84]),(64262,[83,84]),(64275,[1348,1350]),(64276,[1348,1333]),(64277,[1348,1339]),(64278,[1358,1350]),
  (64279,[1348,1341])]

/-- Greek vowels with a small iota, which is written after them in upper case: two rows of eight from a character on,
with the upper case of the vowels. -/
def upperIotas : List (Nat × Nat) := [(8064,7944),(8080,7976),(8096,8040)]

/-- How far the upper case of a character lies from it, if it is a single character. -/
def upperDistance (code : Nat) : Int :=
  if upperTurns.any fun (first, last) => first ≤ code && code ≤ last && (code - first) % 2 == 0 then -1
  else match upperShifts.find? fun (first, last, _) => first ≤ code && code ≤ last with
    | some (_, _, distance) => distance
    | none => (upperSingles.lookup code).getD 0

def upperChar (c : Char) : List Char :=
  let code := c.toNat
  if code < 128 then [c.toUpper]
  else match upperExpansions.lookup code, upperIotas.find? fun (first, _) => first ≤ code && code < first + 16 with
    | some codes, _ => codes.map Char.ofNat
    | none, some (_, vowel) => [Char.ofNat (vowel + code % 8), 'Ι']
    | none, none => [Char.ofNat (code + upperDistance code).toNat]

def upper (text : String) : String :=
  String.ofList (text.toList.flatMap upperChar)

end Labyrinth.Text
