import Funderberker.Acpi.Init
import Funderberker.Acpi.Order
import Funderberker.Acpi.Outcome
import Funderberker.Acpi.Tables
import Funderberker.Base
import Funderberker.Collections.IdTracker
import Funderberker.Collections.LinkedList
import Funderberker.Collections.StackList
import Funderberker.Cpu.Gdt
import Funderberker.Interrupts.Idt
import Funderberker.Lib.Cells
import Funderberker.Lib.DyadicBlock
import Funderberker.Lib.RadixTree
import Funderberker.Logger.Framebuffer
import Funderberker.Paging.CleanFail
import Funderberker.Paging.Inside
import Funderberker.Paging.Ranges
import Funderberker.Paging.Undo
import Funderberker.Pcie.Discover
import Funderberker.Pmm.Canonical
import Funderberker.Pmm.Limine
import Funderberker.Pmm.Pool
import Funderberker.Pmm.Reports
import Funderberker.Slab.AnyClass
import Funderberker.Slab.AnyLayout
import Funderberker.Slab.Backed
import Funderberker.Svm.Vmcb
import Funderberker.Sync.Frames
import Funderberker.Sync.Shared
import Funderberker.Timer.Calibrate
import Funderberker.Timer.Route
