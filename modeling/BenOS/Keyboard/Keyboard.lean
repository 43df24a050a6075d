/-
The keyboard buffers of the processes: `keyboard/keyboard.c`.

Each process has a buffer with two counters, C `int`s that only ever grow
and wrap; an index is a counter's remainder as an unsigned value, since
`sizeof` is unsigned. Whether there is anything to pop is told by the
byte at the head, not by the counters.

`KeyboardSys` is what the calls look at: the foreground process, the
process of the current task, and the buffers.
-/
import Mathlib.Logic.Function.Basic
import BenOS.Config
import BenOS.Lib.Ring

namespace BenOS.Keyboard

open Lib

/-- `struct keyboard_buffer` -/
structure KeyboardBuffer where
  buffer : Fin benosKeyboardBufferSize → UInt8
  tail : BitVec 32
  head : BitVec 32

/-- `process_current()`, null being `none`; `task_current()->process`,
where there is a task; and the buffer of the process at each address. -/
structure KeyboardSys where
  currProcess : Option Addr
  taskProcess : Option Addr
  keyboard : Addr → KeyboardBuffer

/-- The place in the buffer a counter stands for. -/
def counterIndex (counter : BitVec 32) : Fin benosKeyboardBufferSize :=
  ringAt benosKeyboardBufferSize counter.toNat

/-- `keyboard_get_tail_index` -/
def keyboardGetTailIndex (proc : KeyboardBuffer) :
    Fin benosKeyboardBufferSize := counterIndex proc.tail

/-- `keyboard_backspace` -/
def keyboardBackspace (proc : KeyboardBuffer) : KeyboardBuffer :=
  let proc := { proc with tail := proc.tail - 1#32 }
  let realI := keyboardGetTailIndex proc
  { proc with buffer := Function.update proc.buffer realI 0x00 }

/-- `keyboard_push` -/
def keyboardPush (c : UInt8) (s : KeyboardSys) : KeyboardSys :=
  match s.currProcess with
  | none => s
  | some p =>
      if c = 0 then s
      else
        let proc := s.keyboard p
        let realI := keyboardGetTailIndex proc
        { s with
          keyboard := Function.update s.keyboard p
            { proc with
              buffer := Function.update proc.buffer realI c
              tail := proc.tail + 1#32 } }

/-- `keyboard_pop` -/
def keyboardPop (s : KeyboardSys) : UInt8 × KeyboardSys :=
  match s.taskProcess with
  | none => (0, s)
  | some p =>
      let proc := s.keyboard p
      let realI := counterIndex proc.head
      let c := proc.buffer realI
      if c = 0x00 then (0, s)
      else
        (c,
          { s with
            keyboard := Function.update s.keyboard p
              { proc with
                buffer := Function.update proc.buffer realI 0x00
                head := proc.head + 1#32 } })

end BenOS.Keyboard
