import Parlance.Text.Ranges

/-!
# Decimal Digits of All Scripts

Every script with decimal digits encodes the ten of them side by side, so the
first one of each run is enough to know them all. They are written in letters
like the lengths of runs.
-/

namespace Parlance.Text

def digitRuns : List Nat := Ranges.lengths "
  BwCKuCQiCYiDOoDTmDYkEDiEIgENeEScEXaFByFGwFKyFPwFSyGEaGHcJBcJCyJOwJUeKAyKBoKIyKMqKSeKSuCKXsCLYeCMAa
  CMIaCMJgCMMyCNCyDSPkDUSeDXYmDZEcDZJkDZMcDZSaEADcEAQqEAVoEBKiEBOqEBSyECJoECNwEDRkEEBgEEEiFHGaFHJsFH
  PgGWRmGWRwGWSgGWSqGWTaHAGmHAXcHDHwHKJg"

def digitValue? (c : Char) : Option Nat :=
  if c.toNat < 0x80 then
    if c.isDigit then some (c.toNat - 0x30) else none
  else
    (digitRuns.find? fun start => start ≤ c.toNat && c.toNat < start + 10).map (c.toNat - ·)

end Parlance.Text
