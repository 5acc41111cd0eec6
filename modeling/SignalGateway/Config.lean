import SignalGateway.Py.Int

/-!
# `SignalGateway.Config`: the settings

The fields of `Settings` that the modelled code reads, with their defaults, and the validator
of the account.

* `Settings`: the defaults are those of the source. The values are taken as `pydantic` has parsed
  them from the environment.
* `e164Re` is the pattern of the validator. `re.match` anchors it at the start, `\d` matches the
  decimal digits of every script, and `$` also matches in front of a last newline.
* `Settings.validateE164` returns the account or raises.
-/

set_option autoImplicit false

namespace SignalGateway

open Regex

/-- `Settings` -/
structure Settings where
  signalAccount : PyStr
  engineOrg : PyStr := lit "unfoldingWord"
  engineApiKey : PyStr
  gatewayPublicUrl : PyStr
  chunkSize : ℤ := 1500
  messageAgeCutoffSeconds : ℤ := 3600
  signalGroupAllowedUsers : List PyStr := []
  signalRequireMention : Bool := true

/-- `progress_callback_url` -/
def Settings.progressCallbackUrl (settings : Settings) : PyStr :=
  rstripChr '/' settings.gatewayPublicUrl ++ lit "/progress-callback"

/-- `\d` in a pattern for `str`: the decimal digits of every script. -/
def isDecimalCode (n : Nat) : Bool := (decimalDigit n).isSome

/-- `[1-9]` -/
def isLeadingDigit (n : Nat) : Bool := 0x31 ≤ n && n ≤ 0x39

/-- `_E164_RE`: `^\+[1-9]\d{1,14}$` -/
def e164Re : Re Nat :=
  .seq (.notBehind fun _ => true)
    (.seq (.one (chr '+'))
      (.seq (.one isLeadingDigit)
        (.seq (.rep true 1 (some 14) isDecimalCode) (.atEnd (chr '\n')))))

/-- `Settings._validate_e164` -/
def Settings.validateE164 (value : PyStr) : Except PyError PyStr :=
  match matchAt (codes value) e164Re 0 with
  | none => .error .valueError
  | some _ => .ok value

end SignalGateway
