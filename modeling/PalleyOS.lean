import PalleyOS.Paging.Theorems
import PalleyOS.Kheap.Tiling
import PalleyOS.Kheap.Blocks
import PalleyOS.Keyboard.Fifo
import PalleyOS.SknyFS.Theorems
import PalleyOS.Ata.RoundTrip
import PalleyOS.Ata.Sectors
import PalleyOS.Tio.Bounds
import PalleyOS.Isr
import PalleyOS.Tio.Reference
import PalleyOS.Paging.Regions
import PalleyOS.Tio.Coherence
import PalleyOS.Keyboard.Line
import PalleyOS.Keyboard.Editor
import PalleyOS.Idt
import PalleyOS.Kernel
import PalleyOS.Idt.Registrations
import PalleyOS.Timer
import PalleyOS.Timer.Counters
import PalleyOS.Timer.Guards
import PalleyOS.Rsdp
import PalleyOS.Keyboard.Input
import PalleyOS.InterruptFlag
import PalleyOS.Machine.Strings
import PalleyOS.Stdio
import PalleyOS.Stdio.Printing
import PalleyOS.Stdio.Numerals
import PalleyOS.Stdio.Terminated
import PalleyOS.Stdio.Overflow
import PalleyOS.SknyFS.Metadata
import PalleyOS.Ata.Init
import PalleyOS.Ata.Requests
import PalleyOS.Paging.Frames
import PalleyOS.Paging.Walk
import PalleyOS.Paging.Capacity
import PalleyOS.Kheap.Compaction
import PalleyOS.Kheap.AllocFree
import PalleyOS.Kheap.Aligned
import PalleyOS.Kheap.Realloc
import PalleyOS.Machine.Processor
import PalleyOS.SknyFS.AllocationMap
import PalleyOS.SknyFS.Lookup
import PalleyOS.SknyFS.Compare
import PalleyOS.Syscall
import PalleyOS.Tio.Screen
import PalleyOS.Keyboard.Decoder
import PalleyOS.Keyboard.Strokes
import PalleyOS.Keyboard.Buffer
import PalleyOS.Tio.Position
import PalleyOS.Tio.Cursor
import PalleyOS.Tio.Tail
import PalleyOS.Keyboard.Position
import PalleyOS.Machine.Refinement
import PalleyOS.Machine.Pages
import PalleyOS.SknyFS.Store
import PalleyOS.Paging.Virtual
import PalleyOS.Machine.Fields
import PalleyOS.Machine.Protection
import PalleyOS.Idt.Init
import PalleyOS.Gdt
import PalleyOS.Gdt.Lemmas
import PalleyOS.Gdt.Protection
import PalleyOS.Pic
import PalleyOS.Pic.Masks
import PalleyOS.Timer.Sleep
import PalleyOS.Console
import PalleyOS.Timer.Rate
import PalleyOS.Timer.Programming
import PalleyOS.Timer.Frequency
import PalleyOS.Kstdlib
import PalleyOS.Kstdlib.Callers
import PalleyOS.Shell
import PalleyOS.Shell.Transcript
import PalleyOS.Cpuid
import PalleyOS.Serial
