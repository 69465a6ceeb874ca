import BleHost.Code.Basic
import BleHost.Text.Hex

/-!
# Result codes

The codes by which the module says how a command went.
-/

namespace BleHost

/-- The result codes that have a name. -/
inductive ResultCode.Known
  | success | invalidParameter | wrongState | outOfMemory | notImplemented | invalidCommand
  | timeout | notConnected | flow | userAttribute | invalidLicenseKey | commandTooLong
  | outOfBonds | authenticationFailure | pinOrKeyMissing | memoryCapacityExceeded
  | connectionTimeout | connectionLimitExceeded | commandDisallowed | invalidCommandParameters
  | remoteUserTerminatedConnection | connectionTerminatedByLocalHost | llResponseTimeout
  | llInstantPassed | controllerBusy | directedAdvertisingTimeout
  | connectionTerminatedDueToMicFailure | connectionFailedToBeEstablished | passkeyEntryFailed
  | oobDataNotAvailable | authenticationRequirements | confirmValueFailed | pairingNotSupported
  | encryptionKeySize | commandNotSupported | unspecifiedReason | repeatedAttempts
  | smpInvalidParameters | invalidHandle | readNotPermitted | writeNotPermitted | invalidPdu
  | insufficientAuthentication | requestNotSupported | invalidOffset | insufficientAuthorization
  | prepareQueueFull | attributeNotFound | attributeNotLong | insufficientEncryptionKeySize
  | invalidAttributeValueLength | unlikelyError | insufficientEncryption | unsupportedGroupType
  | insufficientResources | applicationErrorCodes
deriving DecidableEq, Repr

namespace ResultCode.Known

/-- The number on the wire. -/
def raw : ResultCode.Known → UInt16
  | success => 0x0000
  | invalidParameter => 0x0180
  | wrongState => 0x0181
  | outOfMemory => 0x0182
  | notImplemented => 0x0183
  | invalidCommand => 0x0184
  | timeout => 0x0185
  | notConnected => 0x0186
  | flow => 0x0187
  | userAttribute => 0x0188
  | invalidLicenseKey => 0x0189
  | commandTooLong => 0x018A
  | outOfBonds => 0x018B
  | authenticationFailure => 0x0205
  | pinOrKeyMissing => 0x0206
  | memoryCapacityExceeded => 0x0207
  | connectionTimeout => 0x0208
  | connectionLimitExceeded => 0x0209
  | commandDisallowed => 0x020C
  | invalidCommandParameters => 0x0212
  | remoteUserTerminatedConnection => 0x0213
  | connectionTerminatedByLocalHost => 0x0216
  | llResponseTimeout => 0x0222
  | llInstantPassed => 0x0228
  | controllerBusy => 0x023A
  | directedAdvertisingTimeout => 0x023C
  | connectionTerminatedDueToMicFailure => 0x023D
  | connectionFailedToBeEstablished => 0x023E
  | passkeyEntryFailed => 0x0301
  | oobDataNotAvailable => 0x0302
  | authenticationRequirements => 0x0303
  | confirmValueFailed => 0x0304
  | pairingNotSupported => 0x0305
  | encryptionKeySize => 0x0306
  | commandNotSupported => 0x0307
  | unspecifiedReason => 0x0308
  | repeatedAttempts => 0x0309
  | smpInvalidParameters => 0x030A
  | invalidHandle => 0x0401
  | readNotPermitted => 0x0402
  | writeNotPermitted => 0x0403
  | invalidPdu => 0x0404
  | insufficientAuthentication => 0x0405
  | requestNotSupported => 0x0406
  | invalidOffset => 0x0407
  | insufficientAuthorization => 0x0408
  | prepareQueueFull => 0x0409
  | attributeNotFound => 0x040A
  | attributeNotLong => 0x040B
  | insufficientEncryptionKeySize => 0x040C
  | invalidAttributeValueLength => 0x040D
  | unlikelyError => 0x040E
  | insufficientEncryption => 0x040F
  | unsupportedGroupType => 0x0410
  | insufficientResources => 0x0411
  | applicationErrorCodes => 0x0480

/-- The name shown to people. -/
def name : ResultCode.Known → String
  | success => "Success"
  | invalidParameter => "InvalidParameter"
  | wrongState => "WrongState"
  | outOfMemory => "OutOfMemory"
  | notImplemented => "NotImplemented"
  | invalidCommand => "InvalidCommand"
  | timeout => "Timeout"
  | notConnected => "NotConnected"
  | flow => "Flow"
  | userAttribute => "UserAttribute"
  | invalidLicenseKey => "InvalidLicenseKey"
  | commandTooLong => "CommandTooLong"
  | outOfBonds => "OutOfBonds"
  | authenticationFailure => "AuthenticationFailure"
  | pinOrKeyMissing => "PinOrKeyMissing"
  | memoryCapacityExceeded => "MemoryCapacityExceeded"
  | connectionTimeout => "ConnectionTimeout"
  | connectionLimitExceeded => "ConnectionLimitExceeded"
  | commandDisallowed => "CommandDisallowed"
  | invalidCommandParameters => "InvalidCommandParameters"
  | remoteUserTerminatedConnection => "RemoteUserTerminatedConnection"
  | connectionTerminatedByLocalHost => "ConnectionTerminatedByLocalHost"
  | llResponseTimeout => "LlResponseTimeout"
  | llInstantPassed => "LlInstantPassed"
  | controllerBusy => "ControllerBusy"
  | directedAdvertisingTimeout => "DirectedAdvertisingTimeout"
  | connectionTerminatedDueToMicFailure => "ConnectionTerminatedDueToMicFailure"
  | connectionFailedToBeEstablished => "ConnectionFailedToBeEstablished"
  | passkeyEntryFailed => "PasskeyEntryFailed"
  | oobDataNotAvailable => "OobDataNotAvailable"
  | authenticationRequirements => "AuthenticationRequirements"
  | confirmValueFailed => "ConfirmValueFailed"
  | pairingNotSupported => "PairingNotSupported"
  | encryptionKeySize => "EncryptionKeySize"
  | commandNotSupported => "CommandNotSupported"
  | unspecifiedReason => "UnspecifiedReason"
  | repeatedAttempts => "RepeatedAttempts"
  | smpInvalidParameters => "SmpInvalidParameters"
  | invalidHandle => "InvalidHandle"
  | readNotPermitted => "ReadNotPermitted"
  | writeNotPermitted => "WriteNotPermitted"
  | invalidPdu => "InvalidPdu"
  | insufficientAuthentication => "InsufficientAuthentication"
  | requestNotSupported => "RequestNotSupported"
  | invalidOffset => "InvalidOffset"
  | insufficientAuthorization => "InsufficientAuthorization"
  | prepareQueueFull => "PrepareQueueFull"
  | attributeNotFound => "AttributeNotFound"
  | attributeNotLong => "AttributeNotLong"
  | insufficientEncryptionKeySize => "InsufficientEncryptionKeySize"
  | invalidAttributeValueLength => "InvalidAttributeValueLength"
  | unlikelyError => "UnlikelyError"
  | insufficientEncryption => "InsufficientEncryption"
  | unsupportedGroupType => "UnsupportedGroupType"
  | insufficientResources => "InsufficientResources"
  | applicationErrorCodes => "ApplicationErrorCodes"

/-- Every known value, in declared order. -/
def all : List ResultCode.Known :=
  [.success, .invalidParameter, .wrongState, .outOfMemory, .notImplemented, .invalidCommand,
   .timeout, .notConnected, .flow, .userAttribute, .invalidLicenseKey, .commandTooLong,
   .outOfBonds, .authenticationFailure, .pinOrKeyMissing, .memoryCapacityExceeded,
   .connectionTimeout, .connectionLimitExceeded, .commandDisallowed, .invalidCommandParameters,
   .remoteUserTerminatedConnection, .connectionTerminatedByLocalHost, .llResponseTimeout,
   .llInstantPassed, .controllerBusy, .directedAdvertisingTimeout,
   .connectionTerminatedDueToMicFailure, .connectionFailedToBeEstablished, .passkeyEntryFailed,
   .oobDataNotAvailable, .authenticationRequirements, .confirmValueFailed, .pairingNotSupported,
   .encryptionKeySize, .commandNotSupported, .unspecifiedReason, .repeatedAttempts,
   .smpInvalidParameters, .invalidHandle, .readNotPermitted, .writeNotPermitted, .invalidPdu,
   .insufficientAuthentication, .requestNotSupported, .invalidOffset, .insufficientAuthorization,
   .prepareQueueFull, .attributeNotFound, .attributeNotLong, .insufficientEncryptionKeySize,
   .invalidAttributeValueLength, .unlikelyError, .insufficientEncryption, .unsupportedGroupType,
   .insufficientResources, .applicationErrorCodes]

end ResultCode.Known

instance ResultCode.vocabulary : Vocabulary ResultCode.Known UInt16 :=
  ⟨ResultCode.Known.all, ResultCode.Known.raw, ResultCode.Known.name⟩

/-- How a command went. -/
abbrev ResultCode := Code ResultCode.Known UInt16

namespace ResultCode

/-- The command succeeded. -/
def success : ResultCode := .known .success

/-- Whether the command succeeded. -/
def isSuccess (code : ResultCode) : Bool := code == success

/-- The text of a result code; one without a name is shown as four hexadecimal digits. -/
def text : ResultCode → String
  | .known k => k.name
  | .unknown raw => s!"Unknown(0x{Text.hexWord raw})"

end ResultCode

end BleHost
