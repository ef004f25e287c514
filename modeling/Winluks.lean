import Winluks.Lib.Run
import Winluks.Lib.Store
import Winluks.Lib.SortedMap
import Winluks.Lib.Region
import Winluks.Lib.AfSplit
import Winluks.Lib.Ledger
import Winluks.Lib.Path
import Winluks.Lib.Ending
import Winluks.Lib.Text
import Winluks.Lib.Bits
import Winluks.Lib.Schedule
import Winluks.Error
import Winluks.Image
import Winluks.Opening
import Winluks.ImageSpec
import Winluks.Reading
import Winluks.Steady
import Winluks.Transfer
import Winluks.Crypto
import Winluks.Sectors
import Winluks.StrictJson
import Winluks.Metadata
import Winluks.Profile
import Winluks.Layout
import Winluks.Header
import Winluks.Grammar
import Winluks.Format
import Winluks.Copies
import Winluks.Damage
import Winluks.Slots
import Winluks.Edits
import Winluks.Allowlists
import Winluks.Probe
import Winluks.Ext4
import Winluks.Btrfs
import Winluks.Volume
import Winluks.Unlock
import Winluks.Binding
import Winluks.Acceptance
import Winluks.Decimal
import Winluks.CryptoLaws
import Winluks.Guards
import Winluks.VolumeSpec
import Winluks.Session
import Winluks.Plaintext
import Winluks.Crash
import Winluks.Adapter
import Winluks.Lifetimes
import Winluks.Admission
import Winluks.Gate
import Winluks.Winspd
import Winluks.Callbacks
import Winluks.Consumer
import Winluks.WinspdSpec
import Winluks.Clock
import Winluks.Serve
import Winluks.Serving
import Winluks.Program
import Winluks.ProgramSpec
import Winluks.Ending
import Winluks.Device
import Winluks.Lookup
import Winluks.Resources
import Winluks.Publication
import Winluks.Threads
import Winluks.Alone
import Winluks.Verdict
import Winluks.Linear
import Winluks.ThreadsCrash
