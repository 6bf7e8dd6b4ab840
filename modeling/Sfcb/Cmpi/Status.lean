import Sfcb.Lib.CString

/-!
# Status codes

`CMPIStatus` and the `CMPIrc` codes the modelled functions set or test. A provider
may return any number, so a code is a number and not one of a fixed set.
-/

namespace Sfcb.Cmpi

open Sfcb.Lib

/-- `CMPIrc`. -/
abbrev CMPIrc := Nat

namespace CMPIrc

abbrev OK : CMPIrc := 0
abbrev ERR_FAILED : CMPIrc := 1
abbrev ERR_INVALID_PARAMETER : CMPIrc := 4
abbrev ERR_NOT_FOUND : CMPIrc := 6
abbrev ERR_NOT_SUPPORTED : CMPIrc := 7
abbrev ERR_CLASS_HAS_CHILDREN : CMPIrc := 8
abbrev ERR_INVALID_SUPERCLASS : CMPIrc := 10
abbrev ERR_ALREADY_EXISTS : CMPIrc := 11
abbrev ERR_QUERY_LANGUAGE_NOT_SUPPORTED : CMPIrc := 14
abbrev ERR_INVALID_QUERY : CMPIrc := 15

end CMPIrc

/-- `CMPIStatus`, with the text of its message. -/
structure CMPIStatus where
  rc : CMPIrc
  msg : Option CStr
  deriving DecidableEq, Repr

/-- `{ CMPI_RC_OK, NULL }`. -/
def CMPIStatus.ok : CMPIStatus := ⟨.OK, none⟩

end Sfcb.Cmpi
