import Parlance.Text.Ranges

/-!
# Letter Case

Upper and lower case of the letters of all scripts. Most letters change by a
fixed distance shared with their neighbours, so the lower case is stored as
runs with a stride and a distance, and the upper case leads back along them. A
few letters become several, and the Greek capital sigma becomes its final form
at the end of a word.
-/

namespace Parlance.Text

/-- The image of a code point under the runs, or itself. Each run is four
    numbers: its first and last code point, the stride between them, and the
    image of the first. -/
def shiftCase : List Nat → Nat → Nat
  | first :: last :: stride :: image :: rest, n =>
    if first ≤ n && n ≤ last && (n - first) % stride == 0 then image + (n - first)
    else shiftCase rest n
  | _, n => n

def preimages (image : Nat) : List Nat → List Nat
  | first :: last :: stride :: start :: rest =>
    let others := preimages image rest
    let n := first + (image - start)
    if start ≤ image && n ≤ last && (image - start) % stride == 0 then n :: others else others
  | _ => []

/-- The runs from a shorter form, in which a run is the distance from the run before, the number
    of steps, the stride, and twice the distance to the image, less one if that lies before. -/
def runsFrom (before : Nat) : List Nat → List Nat
  | gap :: steps :: stride :: distance :: rest =>
    let first := before + gap
    let last := first + steps * stride
    let image := if distance % 2 = 0 then first + distance / 2 else first - (distance + 1) / 2
    first :: last :: stride :: image :: runsFrom last rest
  | _ => []

/-- The runs of letters outside ASCII with a lower case of one letter. -/
def lowerRuns : List Nat := runsFrom 0 (Ranges.lengths "
  HkwbCmcgbCmBixccecccdhccdwcccabJhbccceabQebbcccabPwbabccbbPubabcdabGcbabPobabPqbabccabPubabPycabQ
  gbabQcbabceabQgbabQkcabQmbccccabQubabccabQudabccabQubabccbbQsbbcccabQwbabceabciabebabccabebabccab
  ebiccdiccdabebbcccabHlbabEhbtcccabJzcicciabBFYkbabccabMnbabBFYedabccabOzbabFibabFmbeccLebcceabcja
  bIyhabCyccbCwcabEycbbEwcqbCmcibCmBkabqjlccgabEpdabccabnbabcdcbJzbpbGebBfbCmBxqcckBacccabBebgccdBv
  ccdBlbDsEHeBlbVMucabVMugabVMuBBvDbbEKZobfbqDGtBqbIXjdcbIXjMjCwcckabWNtcBvcckhbpjfbplhbpjhbpjfbpmd
  cpjhbpzhbpjhbpjhbpjbbpbbbFrbabrmdbGpbabrmbbpbbbHrnbbpbbbIpbabnmbbJvbbbJrbabrLmabWGfeabYUvbabYLnha
  bCeBupbBguabcBFnzbCaCSvBvbDsBxabccabBFUjbabLHjbabBFTddccccabBFXfbabBFUvbabBFXlbabBFXjcabcdabcjbbB
  FZxbBxccjbccfabcBTYkwccunccFggcceBecclbcccabEANvbeccfabccabEVChdbccejcccabEVElbabEVFhbabEVEzbabEV
  EfbabEVElcabEVApbabEVClbabEVAvbabCTkbhcccabDrbabEVEjbabEARvbbcchabcgbccBdabcBHAizbCmBVaBnbDcFhBjb
  DcGbkbDacobDacgbDacbbDaCQdBybEyENmBfbCmBGJxBfbCmBULlBhbCq")

/-- The letters in rows of four numbers, each with its upper case, which is filled up by zeros. -/
def sequences : List Nat → List (Nat × List Nat)
  | n :: a :: b :: c :: rest => (n, [a, b, c].filter (· != 0)) :: sequences rest
  | _ => []

/-- The letters whose upper case is several letters, or one that has another
    lower case. -/
def upperSequences : List (Nat × List Nat) := sequences (Ranges.lengths "
  GzBJoaaIpDfDfaLtCvaaMrBAyDaaOtDfaaRlRkaaRoRnaaRrRqaaTcCwBEaaTeTdaaBGfBJlaaBJcBJlBDwBDpBKiBJxBDwBDp
  BLaBJvaaBLoBJeaaBLpBJkaaBLtBJyaaBLuBJsaaBMuBJmaaBMvBJtaaBMzBJhaaCClBZhCAkaKUqBOcaaKUrBOeaaKUsBOoaa
  KUtBOraaKUuBOsaaKUvBOsaaKUwBPaaaKUxBReaaKUyCKZiaaLPeCuBFlaLPfDgBDwaLPgDjBDyaLPhDlBDyaLPiCnBBaaLPjL
  NcaaLWiBJxBEhaLWkBJxBEhBDoLWmBJxBEhBDpLWoBJxBEhBGcMAcMAkBJlaMAdBJdBJlaMAeBIsBJlaMAgBJdBGcaMAhBJdBG
  cBJlMAmBJdBJlaMAoBJlaaMAsMBaBJlaMAtBJjBJlaMAuBIvBJlaMAwBJjBGcaMAxBJjBGcBJlMBcBJjBJlaMBiBJlBDwBDoMB
  jBJlBDwBDpMBmBJlBGcaMBnBJlBDwBGcMByBJxBDwBDoMBzBJxBDwBDpMCaBJtBEhaMCcBJxBGcaMCdBJxBDwBGcMCoMCwBJla
  MCpBKbBJlaMCqBJbBJlaMCsBKbBGcaMCtBKbBGcBJlMCyBKbBJlaDRBkCsCsaDRBlCsCvaDRBmCsCyaDRBnCsCsCvDRBoCsCsC
  yDRBpDfDgaDRBqDfDgaDRCdBZwBZyaDRCeBZwBZhaDRCfBZwBZnaDRCgCAgBZyaDRChBZwBZpa")

/-- The upper case of the Greek letters with breathing and an iota below, which
    becomes a letter. They come in eights, each first small and then capital. -/
def iotaSequence? (n : Nat) : Option (List Nat) :=
  if n < 8064 then none
  else ([7944, 7976, 8040][(n - 8064) / 16]?).map fun eight => [eight + n % 8, 921]

def casedRuns : List Nat := Ranges.lengths "
  CnBagBaBvbkbebfxbBfbHnbeeIabBbHkeccddbbgbbdbbbubDfbFjiGkbBmjBpEFfBmbbfbcBrcdZwDicgDFujhBrcdCmBsCl
  nbBiDxKscgcBmcgcibbbbbbbBfcCbbhbbddbhdecgenfdbhKbbebckbbdfgbbbbbbebgebceffebrBgdcBFlCaCRuEucDzged
  cmBmbbfbBTWcBusBcFeDabxdebChfcbbbfBbcdbBFpBrfjhDcBEAihmfBNtBagBaBTtDcDsBkeBkEmlbpbhbcblbpbhbcCOpB
  znBzEKzCmBGIqCmBMLkDhbCtbccbcccebmbbbhbCnbecibhbBcbebfbbdhbNcczbzbBfbzbBfbzbBfbzbBfbzbiCSykbuDThC
  qDAaBagBagBa"

/-- The runs of characters that a search for the neighbouring letter passes
    over. -/
def ignorableRuns : List Nat := Ranges.lengths "
  BnbgblbBjbbbCtbebbbebccTjHkecebjcbbJrhHzbfbBxBtbbbcbcbbBsblgklbbBjbkvqbDxibkbeBhbbbBeBbDnlCglebcb
  yyBrdBsbhcgiBpCgCdbbbeiebdhkcnbpbCgbeeibucBabccCfbececcddbBecdblcCfbefbcebucwgbbCgbcbbeibhclcBebC
  jbmbBybdbCdbbdfdbehclcBdbCgbcbgbfcucBccCfceeibucBdbCubhdbbDmbchljDubcjjbbgCwcBbbbbbbCdobfbcflbBkj
  bDyebgbccczcedqenbccgbpbDqbXkdBKkdBdcBecBecCmcbhibcldbfbBtfBzbCncBibEodecjbgdIlccbCgbbhbbbbcigkcb
  BnbiBfBxeBwbbfbbfbBojmcBgeccbdCebbcdbbdCgiccCmgDedbnbhebgbdcByClnbBiDxRdbbdldndndncmfickbcbcfBxfb
  kbbnbqnBzBhEJrcEjdEvbpbDsBgBvbSbbBkedffbDpgDpdBQBubBWcgKkbDuebkbbBceDccoBiDabxdDzddcibdbebzcfbFvc
  BasnbBmizlBudBwbceccrbvcCogccccmbibBjblbBzbbdccfcbbBbbocfcbbDwfjdErbcbebBDZsbFrrWbqdbmqBibcbGnbhb
  gblbBjbbbBvbBtcCpbvdTtbIsbFtfBNpgbBqbjWkdbcfeBodebGjcWbeOxcFxlBxeEtbCcpBpbcckdBxecccbebkbBydBkfbi
  CkbmcCajkecbDrdcbbcgbGebdivcCfcdbBlhdfHnicdbbxbDggbbecbcJeegcbcBbcDhicbbcEcbbbcgbbDxdcebfJzjbcJwc
  bbebFoeccebBgkBogceibjgcdBunbcPqhbgbbDewchbcbcEsgdbbcbhbbCucdbbbNjcIBbjUStfChhjeBNvbClrCmcbcYGpeb
  hbcEUgcbeGYuBucxUydjqchBeeFsdCYdCdeByibobwfbpCAihbrchbcbfKboOebCjeCFwhEfiEBffBSXXpbBeDsEyJg"

def lowerChar (c : Char) : Char :=
  if c.toNat < 0x80 then c.toLower
  else if c.toNat = 0x130 then 'i'
  else Char.ofNat (shiftCase lowerRuns c.toNat)

def upperChars (c : Char) : List Char :=
  if c.toNat < 0x80 then [c.toUpper]
  else match (upperSequences.lookup c.toNat).or (iotaSequence? c.toNat) with
    | some cs => cs.map Char.ofNat
    | none => [Char.ofNat ((preimages c.toNat lowerRuns).headD c.toNat)]

/-- Whether the nearest letter of the list, passing over ignorable characters,
    has a case. -/
def nearestCased (cs : List Char) : Bool :=
  match cs.dropWhile fun c => Ranges.contains ignorableRuns c.toNat with
  | c :: _ => Ranges.contains casedRuns c.toNat
  | [] => false

/-- Lower case of the characters that follow `before`, which is held in
    reverse. A capital sigma after a letter and not before one is final. -/
def lowerFrom (before : List Char) : List Char → List Char
  | [] => []
  | c :: rest =>
    let image :=
      if c.toNat = 0x3a3 then
        [Char.ofNat (if nearestCased before && !nearestCased rest then 0x3c2 else 0x3c3)]
      else if c.toNat = 0x130 then ['i', Char.ofNat 0x307]
      else [lowerChar c]
    image ++ lowerFrom (c :: before) rest

def lower (s : String) : String := String.ofList (lowerFrom [] s.toList)

def upper (s : String) : String := String.ofList (s.toList.flatMap upperChars)

end Parlance.Text
