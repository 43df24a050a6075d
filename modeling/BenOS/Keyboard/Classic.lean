/-
The driver of `keyboard/classic.c`: what a scancode of the keyboard
becomes, and what it leaves in the buffers.

The table is looked up at its length too, since the check in front of it
lets that index through: the byte found there is the one the linker puts
behind the table, and a parameter here.
-/
import BenOS.Keyboard.Keyboard

namespace BenOS.Keyboard

-- ================================================================ the codes

/-- `KEYBOARD_CAPS_LOCK_STATE` -/
inductive KeyboardCapsLockState
  | off
  | on
deriving DecidableEq

/-- `CLASSIC_KEYBOARD_CAPSLOCK` -/
abbrev classicKeyboardCapslock : BitVec 8 := 0x3A#8

/-- `CLASSIC_KEYBOARD_KEY_RELEASED` -/
abbrev classicKeyboardKeyReleased : BitVec 8 := 0x80#8

/-- `keyboard_scan_set_one` -/
def keyboardScanSetOne : List UInt8 :=
  [ 0x00, 0x1B, 0x31, 0x32, 0x33, 0x34, 0x35, 0x36
  , 0x37, 0x38, 0x39, 0x30, 0x2D, 0x3D, 0x08, 0x09
  , 0x51, 0x57, 0x45, 0x52, 0x54, 0x59, 0x55, 0x49
  , 0x4F, 0x50, 0x5B, 0x5D, 0x0D, 0x00, 0x41, 0x53
  , 0x44, 0x46, 0x47, 0x48, 0x4A, 0x4B, 0x4C, 0x3B
  , 0x27, 0x60, 0x00, 0x5C, 0x5A, 0x58, 0x43, 0x56
  , 0x42, 0x4E, 0x4D, 0x2C, 0x2E, 0x2F, 0x00, 0x2A
  , 0x00, 0x20, 0x00, 0x00, 0x00, 0x00, 0x00
  , 0x00, 0x00, 0x00, 0x00, 0x00, 0x00, 0x37
  , 0x38, 0x39, 0x2D, 0x34, 0x35, 0x36, 0x2B, 0x31
  , 0x32, 0x33, 0x30, 0x2E ]

/-- `classic_keyboad_scancode_to_char` -/
def classicKeyboadScancodeToChar (beyond : UInt8)
    (capslock : KeyboardCapsLockState) (scancode : BitVec 8) : UInt8 :=
  let sizeOfKeyboardSetOne := keyboardScanSetOne.length
  if scancode.toNat > sizeOfKeyboardSetOne then 0
  else
    let c := keyboardScanSetOne[scancode.toNat]?.getD beyond
    if capslock = .off then
      if c ≥ 0x41 ∧ c ≤ 0x5A then c + 32 else c
    else c

-- =============================================================== the driver

/-- The key of a scancode was let go. -/
def released (scancode : BitVec 8) : Bool :=
  scancode &&& classicKeyboardKeyReleased != 0#8

/-- The keyboard: its caps lock, and the buffers of the processes. -/
structure ClassicKeyboard where
  capsLockState : KeyboardCapsLockState
  sys : KeyboardSys

/-- `classic_keyboard_handle_interrupt` behind the test for a released
key, with the scancode it read. -/
def classicKeyboardPress (beyond : UInt8) (scancode : BitVec 8)
    (k : ClassicKeyboard) : ClassicKeyboard :=
  let k :=
    if scancode = classicKeyboardCapslock then
      { k with capsLockState :=
        if k.capsLockState = .on then .off else .on }
    else k
  let c := classicKeyboadScancodeToChar beyond k.capsLockState scancode
  if c ≠ 0 then { k with sys := keyboardPush c k.sys } else k

/-- What a scancode makes of the keyboard. -/
def classicKeyboardScancode (beyond : UInt8) (scancode : BitVec 8)
    (k : ClassicKeyboard) : ClassicKeyboard :=
  if released scancode then k else classicKeyboardPress beyond scancode k

end BenOS.Keyboard
