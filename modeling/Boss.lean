import Boss.Process.Context
import Boss.Terminal.Lines
import Boss.Terminal.Editing
import Boss.Terminal.Scancodes
import Boss.Terminal.Output
import Boss.Video.Screens
import Boss.Process.Isolation
import Boss.Process.UserStores
import Boss.Process.HaltTicks
import Boss.Interrupt.Registers
import Boss.Interrupt.Devices
import Boss.Filesys.Loads
import Boss.Filesys.Lookup
import Boss.Filesys.Directory
import Boss.Filesys.Reads
import Boss.Process.Results
import Boss.Process.Boot
import Boss.Process.Residue
import Boss.Process.Frames
import Boss.Process.Parsing
import Boss.Process.Programs
import Boss.Syscall.Validation
import Boss.Terminal.Recall
import Boss.Terminal.Cursor
import Boss.Terminal.CursorPorts
import Boss.Terminal.Writes
import Boss.Terminal.Layout
import Boss.Terminal.Echo
import Boss.Terminal.Printf
import Boss.User.Grep
import Boss.User.Blink
import Boss.Routines.Blocks
import Boss.Routines.Itoa
import Boss.Process.Fairness
import Boss.User.Animation
import Boss.User.Commands
import Boss.Interrupt.Service
import Boss.Interrupt.Waiting
import Boss.Interrupt.Clock
import Boss.Interrupt.Descriptors
import Boss.Syscall.Linkage
import Boss.Process.Arguments
import Boss.User.Shell
