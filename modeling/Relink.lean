import Relink.Json.Printer
import Relink.Markup.Render
import Relink.Relinker
import Relink.Settings.File
import Relink.PathPattern.Placement
import Relink.Proofs.Walk
import Relink.Proofs.Fate
import Relink.Proofs.Simultaneous
import Relink.Proofs.PathLanguage
import Relink.Proofs.Session
import Relink.Proofs.Json.Grammar
import Relink.Proofs.Json.Scalars
import Relink.Proofs.Json.Values
import Relink.Proofs.ManifestFile
import Relink.Proofs.PlainManifest
import Relink.Proofs.InlineManifest
import Relink.Proofs.Stable
import Relink.Proofs.Rendering
import Relink.Proofs.Telling
import Relink.Proofs.Json.Raw
import Relink.Proofs.Json.Skip
import Relink.Proofs.SettingsJson
import Relink.Proofs.Json.Printing
import Relink.Proofs.Toml.Written
import Relink.Proofs.SettingsToml
import Relink.Proofs.RoundTrip
import Relink.Proofs.ManifestHistory
import Relink.Proofs.SamePath
import Relink.Proofs.AttributeHistory
import Relink.Proofs.BlankNames
import Relink.Proofs.ScopeHistory
import Relink.Proofs.DocumentOrder
