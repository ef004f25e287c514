import Mathlib.Tactic.Common

/-!
# Errors

The error codes of `error.rs`, which every layer of the bridge returns.
-/

namespace Winluks

inductive Error where
  | metadataInvalid
  | metadataRecoveryRequired
  | unsupportedProfile
  | reencryptionUnsupported
  | resourceLimit
  | unlockFailed
  | backendIo
  | invalidRange
  | fsTypeMismatch
  | fsInvalid
  | fsRecoveryRequired
  | fsUnsupportedFeature
  | fsDriverUnavailable
  | fsGateUnpassed
  | writebackFailed
  | unsupportedOperation
  | volumeDiscoveryFailed
  | uncleanClose
  | devicePublishFailed
  | readOnly
  | stopping
  | consoleRequired
  | crypto
deriving DecidableEq, Repr

end Winluks
