import OtaFetch.CPath

/-!
# The configuration of the client

A string that was never set is `none`. The fields keep the order of the source.
-/
namespace OtaFetch.Config
open CPath

structure OtaConfig where
  serverUrl : Option CStr
  enrollUrl : Option CStr
  tlsCaCert : Option CStr
  tlsClientCert : Option CStr
  tlsClientKey : Option CStr
  connectTimeout : ℤ
  transferTimeout : ℤ
  lowSpeedLimit : ℤ
  lowSpeedTime : ℤ
  retryAttempts : ℤ
  updateIntervalSec : ℤ
  inboxManifestDir : Option CStr
  currentManifestDir : Option CStr
  manifestCaCert : Option CStr
  logFile : Option CStr
  deviceId : Option CStr
  deriving Repr, DecidableEq

end OtaFetch.Config
