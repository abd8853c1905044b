/-!
# Status codes

The result codes shared by every HAL module, with the values that
`test_hal_status_values_are_stable` pins. Success is positive, zero is
`none`, and errors are negative.
-/

set_option autoImplicit false

namespace JaszczurHal.HalStatus

inductive Status where
  | ok
  | none
  | einval
  | ebusy
  | etimeout
  | eio
  | eunsupported
  | enoent
  | eagain
  | eoverflow
  | enomem
  | ignored
  | eexist
  | eperm
  | einternal
  | ecanceled
  | eproto
  | eauth
  | ebus
  | ehw
  | econfig
  | estate
  | euninit
  | edeprecated
  | eunknown
  | etype
  deriving DecidableEq, Repr

def Status.value : Status → Int
  | .ok => 1
  | .none => 0
  | .einval => -1
  | .ebusy => -2
  | .etimeout => -3
  | .eio => -4
  | .eunsupported => -5
  | .enoent => -6
  | .eagain => -7
  | .eoverflow => -8
  | .enomem => -9
  | .ignored => -10
  | .eexist => -11
  | .eperm => -12
  | .einternal => -13
  | .ecanceled => -14
  | .eproto => -15
  | .eauth => -16
  | .ebus => -17
  | .ehw => -18
  | .econfig => -19
  | .estate => -20
  | .euninit => -21
  | .edeprecated => -22
  | .eunknown => -23
  | .etype => -24

def Status.isError (s : Status) : Bool := s.value < Status.value .none

end JaszczurHal.HalStatus
