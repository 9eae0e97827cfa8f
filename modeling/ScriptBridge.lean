import ScriptBridge.Proofs.Binding.Rearrangement
import ScriptBridge.Proofs.Binding.Surplus
import ScriptBridge.Proofs.Host.Dispatch
import ScriptBridge.Proofs.Host.Output
import ScriptBridge.Proofs.Host.Provenance
import ScriptBridge.Proofs.Host.RoundTrip
import ScriptBridge.Proofs.Host.Sessions
import ScriptBridge.Proofs.Schema.Extraction
import ScriptBridge.Proofs.Schema.Wrapper
import ScriptBridge.Proofs.Script.FloatText
import ScriptBridge.Proofs.Settings.CommandLine
import ScriptBridge.Proofs.Settings.Layers
import ScriptBridge.Proofs.Tag.Unambiguous
