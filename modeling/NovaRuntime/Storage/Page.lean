/-
# NovaRuntime.Storage.Page — `Page` of `nova_core::types`

A page is 4096 bytes with an identifier and a flag word, whose lowest bit marks
it dirty. The bytes are a function of their position; nothing reads or writes a
position from 4096 on.
-/
import NovaRuntime.Storage.Types

namespace NovaRuntime.Storage

open NovaRuntime.Library

set_option autoImplicit false

abbrev PageId := UInt64

/-- `PageId::INVALID`, `u64::MAX`. -/
def PageId.invalid : PageId := 0xFFFFFFFFFFFFFFFF

def pageSize : Nat := 4096

abbrev PageData := Nat → UInt8

structure Page where
  id : PageId
  lsn : UInt64
  data : PageData
  checksum : UInt32
  flags : UInt16

namespace Page

def new (id : PageId) : Page := { id, lsn := 0, data := fun _ => 0, checksum := 0, flags := 0 }

def isDirty (page : Page) : Bool := page.flags &&& 0x1 != 0
def markDirty (page : Page) : Page := { page with flags := page.flags ||| 0x1 }
def clearDirty (page : Page) : Page := { page with flags := page.flags &&& ~~~0x1 }

@[simp] theorem isDirty_markDirty (page : Page) : page.markDirty.isDirty = true := by
  have both : (page.flags ||| 0x1) &&& 0x1 = 0x1 := by
    rw [← UInt16.toBitVec_inj]
    ext i
    simp +contextual [Bool.and_or_distrib_right]
  simp [isDirty, markDirty, both]

end Page

end NovaRuntime.Storage
