import Parlance.Text.Ranges

/-!
# Characters That Cannot Be Seen

Control and format characters, separators other than the space, and code points
without a character. A quoted text shows them as escapes.
-/

namespace Parlance.Text

def unseenRuns : List Nat := Ranges.lengths "
  aBgDrBimbBBmcgehbbbubPhbBmcBycdbCdiBbegrwbHkbBwcChcDxoChcBxcpbBccbblfBfjCwbGfbicccwbhbbdecjccceib
  ecbfczcdbgeccwbhbcbcbccbbfeccddbhebbhrkdbjbdbwbhbcbfckbdbdcbpecmhhbdbicccwbhbcbfcjcccdhdecbfcskcb
  gddbedcbbbcdcdddmefddbecbgbovfnbdbxbqcjbdbehcbdcbceckhwbdbxbkbfcjbdbehcgcbeckbcnnbdbBzbdbgeqcBabd
  bsdybjbbchdbegbbbigkcdmCgeBdBlcbbbfbybbbxcfbbbgckceBgCubBkeBnbBkbpbnBlHqbbfbcOnbechbbbecBpbecBhbe
  chbbbecpbCfbecCpcBgdBagDicgcYqbBcdDlhwjyjumnbdbcmDqckgkgoblgDlhBrfCskBfbmemebdBqcflBseBagldCkcCnb
  BdclgkgocBfBxCzdBvbEmiCidpdCihBrcliBrfUocgcBmcgcibbbbbbbBfcCbbpbocgbtcdbjryiBvrccBbbndBhpBhpFkeZn
  zlvCRscBgbNlfBtbbfbcCehcoyjhbhbhbhbhbhbhbhbEwBiBabDlmIgBamfClbDicDzfBrbDqbDgmBvbBRIrdCdjNkuHciHvf
  cbbbfyChdkgCeiCsimgEmlBedDableBhbCdjockcDzyBckgcgcgjhbhbCieEwckgQNsmxeBxMNcOccEcBmhmffBabfbbbcbcb
  EvqRdcCchbBgBqgBzbtbeefbFfeHidgcgcgcddhbhnccmbBabtbcbpcoBiEtfdeBtdDkbndbBvBuFaBddBxpBceBkjBefBrfB
  ebBleoBqGcckgBkeBkeBoiCalmbpbhbcblbpbhbcCpLzjwkiygbBqbjCrgcbbBsbcdbcxbCuijBwtbcfBhdBbfbCmCeeucByb
  cfibdbBdcdekhjhCmBgBnemjCcdBdcBbfBahemhDcCvCdBznBzhBuikLiBfbBqbdccDaBoiBqwBaBmBcuxjDaeBkjCkbfnzhk
  gCbbsiBnjDsbulsbBsCnhbbbebpblgChfkgebicccwbhbcbfbkcccdcbgbfhchdfFjDobfBeCuikGkCccBmBiCrlkgntCggkC
  cBbcpexHdCiDwDfmicbcibcbBebccmjkCsicBuclBbCuiDfnCvKdjbBtbokBddBgcwboCvhbcbBsdbbcbjikggbcbBlbcbghk
  LyzHbbpBynBJnDyEhbflHoDXkDvnBPfFZtWlMUbVxhBfbkeDdbkgBecgkCskkbhbvftBAmDnDxCxeCfhrCmflcoJCaiBVqBqj
  NFrebhbcbLfBtdreiPgDKuEdfndjhkceGYyBucxjEmCiJmkBncCwiEivCsFyumDjjzFfDhbCtbccbcccebmbbbhbCnbecibhb
  BcbebfbbdhbNccLgcBBapfbpBQmBfIrhbrchbcbfIfBtdockecMiBfrCgfbBWahbebcbpbHpcqBpCyekecBEfCqCyCjHmebBb
  bcbbcbbkbebbbbgbebbbbbbdbcbbcbbbbbbbbbbcbbcebhbebebbbkbrfdbfbrCacKkBseDwmpcpbpbBlkGsCeBdnBsejhcog
  FyBLwfqdndEmmDlhmebpmeCeikgBoiBeccDaNcmocfdfdhjBddlfgkkgiihjFrbCdBlkBNqCLFcBgGDthIocINqoLBlEPjUwC
  FyHHzBOTMrJgLECu"

def isUnseen (c : Char) : Bool := Ranges.contains unseenRuns c.toNat

end Parlance.Text
