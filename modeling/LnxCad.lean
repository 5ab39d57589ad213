import LnxCad.Text.Decimal
import LnxCad.Gui.RowTarget
import LnxCad.Gui.InputLoss
import LnxCad.Gui.RunField
import LnxCad.Gui.Scanout
import LnxCad.Gui.Submission
import LnxCad.Gui.OnePanel
import LnxCad.Gui.Wiping
import LnxCad.Gui.Drawing
import LnxCad.Gui.Packets
import LnxCad.Gui.Masking
import LnxCad.Gui.Typing
import LnxCad.Vt.Display
import LnxCad.Vt.Restoration
import LnxCad.Vt.Descriptors
import LnxCad.Session.ChildEnv
import LnxCad.Session.Privileges
import LnxCad.Session.PasswdDialogue
import LnxCad.Session.RootPassword
import LnxCad.Session.Fallback
import LnxCad.Proc.Usernames
import LnxCad.Proc.TopLists
import LnxCad.Proc.Stat
import LnxCad.Proc.SessionMerge
import LnxCad.Proc.Sysinfo
import LnxCad.Watchdog.Hotkey
import LnxCad.Lz4.Blocks
import LnxCad.Lz4.Reads
import LnxCad.Zx0.AnyParse
import LnxCad.Zx0.BufferSize
import LnxCad.Zx0.Overflow
import LnxCad.Zx0.Truncation
import LnxCad.Render.Pictures
import LnxCad.Payload.Memfd
import LnxCad.Watchdog.Daemon
import LnxCad.Watchdog.Lock
import LnxCad.Power.SignOut
import LnxCad.Gui.TypedText
import LnxCad.Gui.Leaving
import LnxCad.Gui.Shells
import LnxCad.Lib.Forking
import LnxCad.Session.Children
import LnxCad.Session.Shadow
import LnxCad.Session.Language
