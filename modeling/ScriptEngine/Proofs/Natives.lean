import ScriptEngine.Proofs.Tracking

/-!
This module contains what evaluations do to the functions that are not written in the script. They make more of
them, and none of them is changed once it was made, however an evaluation ends.
-/

namespace ScriptEngine

theorem Heap.native_newNative (h : Heap) (native : Native)
    : (h.newNative native).2.native ⟨h.natives.size⟩ = native := by
  unfold Heap.native newNative
  rw [Array.getD_eq_getD_getElem?, Array.getElem?_push_size]
  rfl

/-- A function that was made stays what it is. -/
theorem Heap.KeepsNatives.native_of_made {h h' : Heap} {native : Native}
    (hkeeps : (h.newNative native).2.KeepsNatives h')
    : h'.native ⟨h.natives.size⟩ = native := by
  have hsize : h.natives.size < (h.natives.push native).size := by
    rw [Array.size_push]
    exact Nat.lt_succ_self _
  rw [(hkeeps ⟨h.natives.size⟩ hsize).2, native_newNative]

theorem Heap.KeepsNatives.track : Heap.Track Heap.KeepsNatives fun _ => False where
  ofKeeps hkeeps := hkeeps.natives
  trans h1 h2 := h1.trans h2
  before _ hp := hp
  declare hr _ := (Keeps.newClass ..).natives.trans hr

/-- The callbacks of a machine keep the functions that there are. -/
abbrev Machine.KeepsNatives : Machine → Prop := Machine.Carries Heap.KeepsNatives

/-- The functions and the importer of a host keep the functions that there are if what they call back into does. -/
abbrev Host.KeepsNatives : Host → Prop := Host.Carries Heap.KeepsNatives

/-- No evaluation changes a function that was made, if the host does not. -/
theorem machine_keepsNatives {host : Host} (hhost : host.KeepsNatives) (n : Nat) : (host.machine n).KeepsNatives :=
  machine_carries Heap.KeepsNatives.track hhost n

theorem none_keepsNatives : Host.none.KeepsNatives :=
  (none_tracks Heap.KeepsNatives.track).carries Heap.KeepsNatives.track

end ScriptEngine
