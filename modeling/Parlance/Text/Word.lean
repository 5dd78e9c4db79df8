import Parlance.Text.Ranges

/-!
# Word Characters
-/

namespace Parlance.Text

def alphanumericRuns : List Nat := Ranges.lengths "
  GobhcbbdcbdbxbBfbRqemofhbbbEzfbccebbgbbdbbbubDfbFjiGkbBmcbgBpCtBbeeBtBrvkecbDvbbpchpcbqbbBeBdDllb
  oBrjcebfwebjbdbxzhlfybgrBqCgCcdbsbhkekbqeicccwbhbbdedbqbncbdemcgcbigeccwbhbcbcbcBfebbhkcdqjbdbwbh
  bcbfdbsbpcekjblicccwbhbcbfdbBecbdekbhlbbgddbedcbbbcdcdddmwbvnsibdbxbqdbBadcbccekihbbeibdbxbkbfdbB
  fcbcekbcrjbdbBpcbqbfdbketbgfsdybjbbchBfkrBwbcmhjkBncbbbfbybbbkbcjbcfbbjkceBgbBfumibBkBbfElBrulgge
  edbdchdenmbbkgBmbbfbcBrbMvbechbbbecBpbecBhbechbbbecpbCfbecCpoudqqDicgdXwcrbBafCxdlhsntosonbdpCaBj
  bebdkgkwkgDlhfcBibbfCskBfBnBocflBseBaglBlxjCbBrkgknbDpBvridkBpBenCeBaBkBckdBxcjhBrcdBpebgbcdbfHkC
  mKscgcBmcgcibbbbbbbBfcCbbhbbddbhdecgenfdbhElccgflgnDxbebckbbdfgbbbbbbeblceffebbCgBByCiDawYgBeBRoI
  vgedcjbcBmbbfbcCehbqxjhbhbhbhbhbhbhbhDcbSbdzjhfcfeDigdbDmbefBrbDqdekBgBwqBgkBeibpBgkBnpMiJToCmBGU
  fCpBucKjdBcuBvqBfcDcBnjcDzcCmfcbbbfyqbdbebxngkCaoByBckygdbbcbBmkxzBdhBvBclgfbzbBpxdbiekgxdbdBybbd
  ccfcbbbydclhdmgcgcgjhbhbBrbogElnkgQNsmxeBxMNcOccEcBmhmffbbkbnbfbbbcbcbEeBhNzsCmcCcBomEmfbFftkhBag
  BalDldgcgcgcdBjmbBabtbcbpcoBiEtmBtmCfrcJkBddBxqBbeBkjBefBmkBecBkeibfBqGcckgBkeBkeBoiCamlbpbhbcblb
  pbhbcCpLzjwkiygbBqbjCrgcbbBsbcdbcxcBfcBmijBwtbcfBheBaCsCeeucBvpebdbBdkjxBfbBgBgibBcgfqCckwcBbfBax
  hDcCvCdBznBzhBqmkLiBfbBqgcDaBoiwleBbsBuBcuxmCbBaBebccbnBtBgzhkjBkpkebcbiBjdbmBwoellbbeulsbzDghbbb
  ebpbkhBvrklicccwbhbcbfdbsbmfGcCbsefkfdBeBwucbbikGkBvBpeBkBwublkBmBrnbhkCcBbvmehHdBsEmDfmicbcibcby
  pbbbokCsicBnqbbbBcbkBohbvblButbsCvKdjbBlrbpBdfBeEihbcbBmvbjkggbcbBgobhkLytHhbpvBrBJmDyEhrHoDXkDtp
  BPfFZtWlMUbVxhBfbkgDbbkgBesBwqemkbhbvftBAmDjEbCxfbConCmcbbBcJCaiBVqBqjNFrebhbcbLfBtdreiPgDKuEdfnd
  jhkILiuEezFfDhbCtbccbcccebmbbbhbCnbecibhbBcbebfbbdhbNcczbzbBfbzbBfbzbBfbzbBfbzbicByCQyBfSnBtkhcke
  bMjBesBsekBWghbebcbpbHpcjBwCqhbekBElChbdbeCyBtbpHmebBbbcbbcbbkbebbbbgbebbbbbbdbcbbcbbbbbbbbbbcbbc
  ebhbebebbbkbrfdbfbrWinEDfkBNqCLFcBgGDthIocINqoLBlEPjUwCFyHHz"

def isAlphanumeric (c : Char) : Bool :=
  if c.toNat < 0x80 then c.isAlphanum else Ranges.contains alphanumericRuns c.toNat

def isWordChar (c : Char) : Bool := isAlphanumeric c || c == '_'

end Parlance.Text
