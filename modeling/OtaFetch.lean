import OtaFetch.Interaction
import OtaFetch.FileTree
import OtaFetch.CPath
import OtaFetch.Hash
import OtaFetch.Config
import OtaFetch.Machine
import OtaFetch.Fetch
import OtaFetch.Update
import OtaFetch.Iteration
import OtaFetch.Retry
import OtaFetch.Install
import OtaFetch.Stages
import OtaFetch.Gate
import OtaFetch.Untrusted
import OtaFetch.Current
import OtaFetch.Confine
import OtaFetch.Poll
import OtaFetch.AtomicWrite
import OtaFetch.Enroll
import OtaFetch.Enrolled
import OtaFetch.KeyFile
import OtaFetch.Payload
import OtaFetch.Token
import OtaFetch.MakeDirs
import OtaFetch.ConfigLoad
import OtaFetch.Log
import OtaFetch.LogFormat
import OtaFetch.Progress
import OtaFetch.Handles
import OtaFetch.ConfigFile
import OtaFetch.ManifestMemory
import OtaFetch.Ready
import OtaFetch.Recovery
import OtaFetch.Wedge
import OtaFetch.Among
import OtaFetch.FetchMemory
import OtaFetch.Isolation
import OtaFetch.Reenroll
import OtaFetch.CommandLine
