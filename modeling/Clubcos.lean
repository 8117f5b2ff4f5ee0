import Clubcos.Lib.Dyadic
import Clubcos.Lib.Word
import Clubcos.Memory.Model
import Clubcos.Memory.Bits
import Clubcos.Memory.Alloc
import Clubcos.Memory.Free
import Clubcos.Memory.Init
import Clubcos.Memory.Run
import Clubcos.Memory.Buddy
import Clubcos.Memory.Request
import Clubcos.Memory.Touched
import Clubcos.Memory.Layout
import Clubcos.Memory.Release
import Clubcos.Memory.Client
import Clubcos.Memory.DynSeq
import Clubcos.Lib.Ring
import Clubcos.Lib.Tally
import Clubcos.Lib.Fair
import Clubcos.Lib.Handle
import Clubcos.Lib.Machine
import Clubcos.Lib.Bisect
import Clubcos.Lib.Bytes
import Clubcos.Lib.Chain
import Clubcos.LinkedList.Model
import Clubcos.LinkedList.Lists
import Clubcos.LinkedList.Located
import Clubcos.LinkedList.Sequence
import Clubcos.LinkedList.Spsc
import Clubcos.Task.Model
import Clubcos.Task.Sched
import Clubcos.Task.Inv
import Clubcos.Task.Create
import Clubcos.Task.Exit
import Clubcos.Task.Run
import Clubcos.Task.Join
import Clubcos.Task.Family
import Clubcos.Task.Fpu
import Clubcos.Timer.Model
import Clubcos.Timer.Run
import Clubcos.Timer.Deadline
import Clubcos.Timer.Insert
import Clubcos.Terminal.Array
import Clubcos.Buffer.Fifo
import Clubcos.Buffer.Bounded
import Clubcos.Terminal.Model
import Clubcos.Terminal.Screen
import Clubcos.Terminal.Lines
import Clubcos.Terminal.Output
import Clubcos.Terminal.Edit
import Clubcos.Terminal.Getch
import Clubcos.Terminal.Cursor
import Clubcos.Terminal.Backspace
import Clubcos.Terminal.Cancel
import Clubcos.Terminal.Input
import Clubcos.Keyboard.Table
import Clubcos.Keyboard.Model
import Clubcos.Keyboard.Stream
import Clubcos.Keyboard.History
import Clubcos.Keyboard.Dispatch
import Clubcos.Task.History
import Clubcos.Task.Kill
import Clubcos.Task.Suspend
import Clubcos.Task.Thread
import Clubcos.Task.Clock
import Clubcos.Task.Time
import Clubcos.Task.Ids
import Clubcos.Task.Cleanup
import Clubcos.Task.Priority
import Clubcos.Task.Full
import Clubcos.Task.Flags
import Clubcos.Lib.Threads
import Clubcos.Lib.Circular
import Clubcos.Sync.Mutex
import Clubcos.Sync.Count
import Clubcos.Coshell.Excpp
import Clubcos.Coshell.Search
import Clubcos.Print.Model
import Clubcos.Print.Format
import Clubcos.Print.Stores
import Clubcos.Print.Bounds
import Clubcos.Print.Reads
import Clubcos.Print.Ends
import Clubcos.Lib.Numeral
import Clubcos.Print.Text
import Clubcos.Print.Numerals
import Clubcos.Print.Strings
import Clubcos.Lib.X86
import Clubcos.String.Move
import Clubcos.String.Fill
import Clubcos.String.Copy
import Clubcos.Lib.Paging
import Clubcos.Lib.Stack
import Clubcos.Interrupt.Stub
import Clubcos.Boot.Paging
import Clubcos.Lib.Calendar
import Clubcos.Rtc.Weekday
import Clubcos.Task.Load
import Clubcos.Task.Calls
import Clubcos.Edimg.Fat
import Clubcos.Edimg.Dir
import Clubcos.Edimg.Data
import Clubcos.Edimg.Store
import Clubcos.Edimg.Files
import Clubcos.Edimg.Read
import Clubcos.Edimg.Script
import Clubcos.Edimg.Imgin
import Clubcos.Edimg.Table
import Clubcos.Edimg.Boot
import Clubcos.Edimg.Reload
import Clubcos.Edimg.Words
import Clubcos.Lib.Warehouse
import Clubcos.Sokoban.Model
import Clubcos.Sokoban.Game
import Clubcos.Sokoban.Account
