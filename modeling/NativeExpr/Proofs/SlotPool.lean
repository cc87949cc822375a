import Mathlib.Data.Int.ConditionallyCompleteOrder
import Mathlib.Data.List.Nodup
import Mathlib.Order.CompletePartialOrder
import Mathlib.Order.ConditionallyCompleteLattice.Basic
import NativeExpr.Proofs.Frame

/-!
# The slots of a frame in use

A frame hands out its slots and takes them back in any order. What is free and what is handed
out are together always the slots that the new frame had (`Serving.account`), and from that
follows what `Serving.bounded` says of the words in use.
-/

namespace NativeExpr.Frame

/-- The frames of a function with that many parameters and slots, and the slots that are handed
out. Only a slot that is handed out is taken back. -/
inductive Serving (parameters slots : Nat) : Frame → List Offset → Prop
  | opened : Serving parameters slots (new parameters slots) []
  | granted {frame after : Frame} {taken : List Offset} {slot : Offset}
      (serving : Serving parameters slots frame taken)
      (allocated : frame.allocate = (some slot, after)) :
      Serving parameters slots after (slot :: taken)
  | refused {frame after : Frame} {taken : List Offset}
      (serving : Serving parameters slots frame taken)
      (allocated : frame.allocate = (none, after)) : Serving parameters slots after taken
  | returned {frame : Frame} {taken : List Offset} {slot : Offset}
      (serving : Serving parameters slots frame taken) (out : slot ∈ taken) :
      Serving parameters slots (frame.release slot) (taken.erase slot)

/-- The bytes of the word at an offset, as distances from the frame pointer. -/
def bytes (offset : Offset) : Set Int := Set.Ico offset.toInt (offset.toInt + 8)

/-- The bytes between the saved registers and the end of the frame. -/
def body (frame : Frame) : Set Int := Set.Ico (-40 - frame.size.toNat) (-40)

variable {parameters slots : Nat} {frame : Frame} {taken : List Offset}

theorem Covers.bytes_subset {offset : Offset} (covers : frame.Covers offset) :
    bytes offset ⊆ frame.body := by
  obtain ⟨_, above, within⟩ := covers
  refine Set.Ico_subset_Ico ?_ ?_ <;> omega

/-- The bytes of different words are different. -/
theorem Covers.disjoint {first second : Offset} (covers : frame.Covers first)
    (others : frame.Covers second) (different : first ≠ second) :
    Disjoint (bytes first) (bytes second) := by
  have distinct : first.toInt ≠ second.toInt := fun same => different (BitVec.toInt_inj.mp same)
  have words := covers.1
  have otherWords := others.1
  refine Set.disjoint_left.mpr fun place inFirst inSecond => ?_
  simp only [bytes, Set.mem_Ico] at inFirst inSecond
  omega

/-- Handing out and taking back only moves slots between those that are free and those that
are handed out. -/
theorem Serving.account (serving : Serving parameters slots frame taken) :
    (frame.free ++ taken).Perm (new parameters slots).free ∧
      frame.homes = (new parameters slots).homes ∧ frame.size = (new parameters slots).size := by
  induction serving with
  | opened => exact ⟨by rw [List.append_nil], rfl, rfl⟩
  | @granted frame after taken slot _ allocated ih =>
    cases free : frame.free with
    | nil => simp [allocate, free] at allocated
    | cons next rest =>
      simp only [allocate, free, Prod.mk.injEq, Option.some.injEq] at allocated
      obtain ⟨rfl, rfl⟩ := allocated
      rw [free] at ih
      exact ⟨List.perm_middle.trans ih.1, ih.2⟩
  | @refused frame after taken _ allocated ih =>
    cases free : frame.free with
    | nil =>
      simp only [allocate, free, Prod.mk.injEq, true_and] at allocated
      exact allocated ▸ ih
    | cons next rest => simp [allocate, free] at allocated
  | @returned frame taken slot _ out ih =>
    obtain ⟨slots, rest⟩ := ih
    refine ⟨?_, rest⟩
    calc (slot :: frame.free ++ taken.erase slot)
      _ |>.Perm (frame.free ++ slot :: taken.erase slot) := List.perm_middle.symm
      _ |>.Perm (frame.free ++ taken) := (List.perm_cons_erase out).symm.append_left _
      _ |>.Perm (new parameters _).free := slots

/-- However slots were handed out and taken back, no two words among those that are handed out
and the homes share a byte, and all of them lie in the body of the frame; a slot is refused
exactly when all are handed out; and the size of the body is what aligns the stack. -/
theorem Serving.bounded (small : parameters + slots ≤ 2 ^ 28 - 5)
    (serving : Serving parameters slots frame taken) :
    (taken ++ frame.homes).Pairwise (fun first second => Disjoint (bytes first) (bytes second)) ∧
      (∀ offset ∈ taken ++ frame.homes, bytes offset ⊆ frame.body) ∧
      frame.homes.length = parameters ∧
      (frame.allocate.1 = none ↔ taken.length = slots) ∧
      frame.size.toNat % 16 = 8 := by
  obtain ⟨account, homes, size⟩ := serving.account
  have sound : (new parameters slots).Sound := sound_new (by omega)
  have out : taken ⊆ (new parameters slots).free :=
    fun slot listed => account.subset (List.mem_append_right _ listed)
  have covers : ∀ offset ∈ taken ++ frame.homes, frame.Covers offset := by
    intro offset listed
    have body : (new parameters slots).Covers offset := by
      rcases List.mem_append.mp listed with taken | home
      · exact sound.free offset (out taken)
      · exact sound.homes offset (homes ▸ home)
    simpa only [Covers, size] using body
  have distinct : (taken ++ frame.homes).Nodup := by
    refine List.Nodup.append ?_ (homes ▸ nodup_homes_new (by omega)) ?_
    · exact (account.nodup_iff.mpr sound.distinct).of_append_right
    · intro slot handed home
      exact sound.apart slot (homes ▸ home) (out handed)
  have number := account.length_eq
  have supply : (new parameters slots).free.length = slots := by simp [new]
  refine ⟨?_, fun offset listed => (covers offset listed).bytes_subset, ?_, ?_, ?_⟩
  · exact distinct.imp_of_mem fun first second different =>
      (covers _ first).disjoint (covers _ second) different
  · simp [homes, new]
  · rw [List.length_append, supply] at number
    have refuses : frame.allocate.1 = none ↔ frame.free.length = 0 := by
      cases free : frame.free <;> simp [allocate, free]
    rw [refuses]
    omega
  · rw [size]
    exact toNat_bodySize_mod (parameters + slots)

/-- A frame with two homes and one slot: the slot is handed out, refused, taken back and handed
out again. -/
theorem bounded_one_slot :
    let frame : Frame := ⟨[-48, -56], [], 24⟩
    2 + 1 ≤ 2 ^ 28 - 5 ∧ Serving 2 1 frame [-64] ∧
      [-64, -48, -56].Pairwise (fun first second => Disjoint (bytes first) (bytes second)) ∧
      bytes (-64) ⊆ Set.Ico (-64) (-40) ∧ frame.allocate.1 = none := by
  intro frame
  have unused : Serving 2 1 ⟨[-48, -56], [-64], 24⟩ [] := .opened
  have first : Serving 2 1 frame [-64] := unused.granted rfl
  have again : Serving 2 1 ⟨[-48, -56], [-64], 24⟩ [] := (first.refused rfl).returned (by decide)
  have serving : Serving 2 1 frame [-64] := again.granted rfl
  obtain ⟨apart, within, _, refused, _⟩ := Serving.bounded (by decide) serving
  exact ⟨by decide, serving, apart, within (-64) (by simp), refused.mpr rfl⟩

end NativeExpr.Frame
