import Columnar.Proofs.Building.Resizing

/-!
# Setting the capacity of maps

The capacity of a map is counted in slots, and given on to its keys and items, which are counted in
entries.  So a map may keep all its slots and still lose entries: it reads the same values exactly
where it has no more entries than the new capacity has slots, and so have the maps that are its keys
or items (`Builder.resize_map`).

For this the entries have to be those of slots.  Entries that were appended behind a null slot, or
before the first slot, are not read, and whether they are lost makes no difference
(`Builder.EntriesOwned`).  Maps that are appended by their calls have no such entries
(`Builder.resize_appended_maps`).
-/

namespace Columnar

namespace Builder

variable {allowed : Builder → Builder → Prop} {b : Builder} {x keys items : Contents}
  {vs : List Value} {valid : List Bool} {starts : List Nat} {sorted : Bool} {k c : Nat}

/-- No map among the builders that share the capacity has more entries than that. -/
def EntriesWithin (k : Nat) : Builder → Prop
  | map _ keys items _ => keys.len ≤ k ∧ keys.EntriesWithin k ∧ items.EntriesWithin k
  | entries keys items => keys.EntriesWithin k ∧ items.EntriesWithin k
  | _ => True

/-- Every entry of a map is one of its slots. -/
def OwnsEntries : Builder → Prop
  | b@(map _ keys _ _) => ∃ vs, b.Reads vs ∧ (vs.flatMap Value.entries).length = keys.len
  | _ => True

/-- Every entry is one of a slot, for the maps at every depth. -/
def EntriesOwned (b : Builder) : Prop := Throughout children OwnsEntries b

namespace Contents

/-- Every entry of a map is one of its slots. -/
def OwnsEntries : Contents → Prop
  | x@(map _ _ keys _ _) => x.Complete ∧ (x.slots.flatMap Value.entries).length = keys.len
  | _ => True

/-- Every entry is one of a slot, for the maps at every depth. -/
def EntriesOwned (x : Contents) : Prop := Throughout children OwnsEntries x

end Contents

theorem Holds.entriesOwned_iff (h : Holds b x) : b.EntriesOwned ↔ x.EntriesOwned :=
  h.throughout_iff fun {b x} held => by
    have reads (vs : List Value) : b.Reads vs ↔ x.Complete ∧ x.slots = vs := held.reads_iff
    cases held with
    | map spans first second =>
      simp only [Builder.OwnsEntries, Contents.OwnsEntries, reads, first.len_eq]
      constructor
      · rintro ⟨_, ⟨complete, rfl⟩, all⟩
        exact ⟨complete, all⟩
      · rintro ⟨complete, all⟩
        exact ⟨_, ⟨complete, rfl⟩, all⟩
    | _ => exact .rfl

/-- A capacity that was set is not raised again. -/
theorem capacity_eq (c : Nat) : max (max c minCapacity) minCapacity = max c minCapacity :=
  Nat.max_eq_left (Nat.le_max_right _ _)

theorem count_take (count : starts.length = valid.length) (k : Nat) :
    (starts.take k).length = (valid.take k).length := by
  rw [List.length_take, List.length_take, count]

namespace Contents

theorem mem_first (x y : Contents) : x ∈ [x, y] := List.mem_cons_self ..

theorem mem_second (x y : Contents) : y ∈ [x, y] :=
  List.mem_cons_of_mem _ (List.mem_singleton_self y)

theorem len_resize : (x : Contents) → (c : Nat) → (x.resize c).len = min x.len (max c minCapacity)
  | null _, _ => rfl
  | bool _ _, _ | num _ _ _, _ | bytes _ _ _, _ | list _ _ _, _ | fixedList _ _ _, _
  | struct _ _ _, _ | map _ _ _ _ _, _ => by rw [resize, len, len, List.length_take, Nat.min_comm]
  | entries keys _, c => len_resize keys c

/-! ### Entries of slots -/

/-- The entries of the slots are some of all entries, in order. -/
theorem entries_sublist {rows : List (Value × Value)} (within : StartsWithin starts rows.length)
    (count : starts.length = valid.length) :
    ((whereValid valid fun i => .map (runOf starts rows i)).flatMap Value.entries).Sublist
      rows := by
  have slots : (whereValid valid fun i => .map (runOf starts rows i)).length = starts.length :=
    (length_whereValid _ _).trans count.symm
  -- by induction on the slots, of which the first `n` have entries below the bound of the next one
  have first (n : Nat) (hn : n ≤ starts.length) :
      (((whereValid valid fun i => .map (runOf starts rows i)).take n).flatMap
        Value.entries).Sublist (rows.take ((starts ++ [rows.length]).getD n 0)) := by
    induction n with
    | zero => exact List.nil_sublist _
    | succ n ih =>
      have order := bound_mono within (Nat.le_succ n) hn
      obtain ⟨m, hm⟩ := Nat.exists_eq_add_of_le order
      have run : (rows.drop ((starts ++ [rows.length]).getD n 0)).take m = runOf starts rows n := by
        rw [runOf]
        simp only
        rw [hm, Nat.add_sub_cancel_left]
      rw [List.take_add_one, getElem?_whereValid, List.flatMap_append, hm, List.take_add, run]
      refine (ih (Nat.le_of_succ_le hn)).append ?_
      rcases valid[n]? with _ | _ | _
      · exact List.nil_sublist _
      · exact List.nil_sublist _
      · simp [Value.entries]
  have all := first starts.length (Nat.le_refl _)
  rwa [← slots, List.take_length, slots, bound_length, List.take_length] at all

/-! ### When the capacity covers the entries -/

end Contents

/-- Nothing is dropped where the capacity covers the slots, and the entries that share it. -/
theorem Holds.resize_eq : (x : Contents) → (c : Nat) → {b : Builder} → Holds b x → x.Even →
    x.len ≤ max c minCapacity → b.EntriesWithin (max c minCapacity) → x.resize c = x
  | .null _, _, _, _, _, room, _ => congrArg Contents.null (Nat.min_eq_left room)
  | .bool _ _, _, _, .bool held, _, room, _ | .num _ _ _, _, _, .num held, _, room, _
  | .list _ _ _, _, _, .list held _, _, room, _ => by
    rw [Contents.resize, List.take_of_length_le room, List.take_of_length_le (held.count ▸ room)]
  | .bytes _ valid runs, _, _, .bytes held _, _, room, _ => by
    have count : runs.length = valid.length := (length_startsOf runs).symm.trans held.spans.count
    rw [Contents.resize, List.take_of_length_le room, List.take_of_length_le (count ▸ room)]
  | .fixedList _ _ _, _, _, _, _, room, _ | .struct _ _ _, _, _, _, _, room, _ => by
    rw [Contents.resize, List.take_of_length_le room]
  | .entries x y, c, _, .entries first second, even, room, within => by
    have paired : x.len = y.len := even.here
    have keys := resize_eq x c first (even.child (Contents.mem_first x y)) room within.1
    have items := resize_eq y c second (even.child (Contents.mem_second x y)) (paired ▸ room)
      within.2
    rw [Contents.resize, keys, items]
  | .map _ _ x y _, c, _, .map held first second, even, room, within => by
    have paired : x.len = y.len := even.here
    have entries : x.len ≤ max (max c minCapacity) minCapacity := by
      rw [capacity_eq, ← first.len_eq]
      exact within.1
    have keys := resize_eq x _ first (even.child (Contents.mem_first x y)) entries
      (by rw [capacity_eq]; exact within.2.1)
    have items := resize_eq y _ second (even.child (Contents.mem_second x y)) (paired ▸ entries)
      (by rw [capacity_eq]; exact within.2.2)
    rw [Contents.resize, List.take_of_length_le room, List.take_of_length_le (held.count ▸ room),
      keys, items]
termination_by structural x => x

/-! ### When all entries are kept -/

theorem zip_injective {α β : Type} {as as' : List α} {bs bs' : List β}
    (paired : as.length = bs.length) (paired' : as'.length = bs'.length)
    (same : as.zip bs = as'.zip bs') : as = as' ∧ bs = bs' := by
  constructor
  · rw [← List.map_fst_zip (Nat.le_of_eq paired), same, List.map_fst_zip (Nat.le_of_eq paired')]
  · rw [← List.map_snd_zip (Nat.le_of_eq paired.symm), same,
      List.map_snd_zip (Nat.le_of_eq paired'.symm)]

namespace Contents

theorem length_zip_slots (first : keys.Complete) (second : items.Complete)
    (paired : keys.len = items.len) : (keys.slots.zip items.slots).length = keys.len := by
  rw [List.length_zip, keys.length_slots first.even, items.length_slots second.even, ← paired,
    Nat.min_self]

/-- What is paired in the same way is the same. -/
theorem slots_eq_of_zip {x y x' y' : Contents} (whole : ∀ z ∈ [x, y], z.Complete)
    (cut : ∀ z ∈ [x', y'], z.Complete) (paired : x.len = y.len) (paired' : x'.len = y'.len)
    (same : x'.slots.zip y'.slots = x.slots.zip y.slots) :
    x'.slots = x.slots ∧ y'.slots = y.slots := by
  have length (z : Contents) (hz : z ∈ [x, y] ∨ z ∈ [x', y']) : z.slots.length = z.len :=
    z.length_slots (hz.elim (whole z · |>.even) (cut z · |>.even))
  refine zip_injective ?_ ?_ same
  · rw [length x' (.inr (mem_first x' y')), length y' (.inr (mem_second x' y')), paired']
  · rw [length x (.inl (mem_first x y)), length y (.inl (mem_second x y)), paired]

/-- The slots of a map have no more entries than the map. -/
theorem entries_map_sublist (whole : (map valid starts keys items sorted).Complete)
    (count : starts.length = valid.length) :
    ((map valid starts keys items sorted).slots.flatMap Value.entries).Sublist
        (keys.slots.zip items.slots) ∧ (keys.slots.zip items.slots).length = keys.len := by
  have rows := length_zip_slots (whole.child (mem_first keys items))
    (whole.child (mem_second keys items)) whole.even.here
  exact ⟨entries_sublist (rows.symm ▸ whole.anchored.here) count, rows⟩

end Contents

/-- Where the slots are the same under another capacity, it covers the entries. -/
theorem Holds.entriesWithin_of_slots : (x : Contents) → (c : Nat) → {b : Builder} → Holds b x →
    x.Complete → (x.resize c).Complete → x.EntriesOwned → (x.resize c).slots = x.slots →
    b.EntriesWithin (max c minCapacity)
  | .null _, _, _, h, _, _, _, _ | .bool _ _, _, _, h, _, _, _, _
  | .num _ _ _, _, _, h, _, _, _, _ | .bytes _ _ _, _, _, h, _, _, _, _
  | .list _ _ _, _, _, h, _, _, _, _ | .fixedList _ _ _, _, _, h, _, _, _, _
  | .struct _ _ _, _, _, h, _, _, _, _ => by
    cases h
    trivial
  | .entries x y, c, _, .entries first second, whole, cut, owned, same => by
    have injective : Function.Injective fun e : Value × Value => Value.struct [e.1, e.2] := by
      rintro ⟨k, v⟩ ⟨k', v'⟩ same
      simpa using same
    -- equal structs have equal keys and equal items
    have rows := List.map_injective_iff.2 injective same
    obtain ⟨keys, items⟩ := Contents.slots_eq_of_zip (fun z hz => whole.child hz)
      (fun z hz => cut.child hz) whole.even.here cut.even.here rows
    have keysWithin := entriesWithin_of_slots x c first (whole.child (Contents.mem_first x y))
      (cut.child (Contents.mem_first _ _)) (owned.child (Contents.mem_first x y)) keys
    have itemsWithin := entriesWithin_of_slots y c second (whole.child (Contents.mem_second x y))
      (cut.child (Contents.mem_second _ _)) (owned.child (Contents.mem_second x y)) items
    exact ⟨keysWithin, itemsWithin⟩
  | .map _ _ x y _, c, _, .map held first second, whole, cut, owned, same => by
    obtain ⟨some, length⟩ := Contents.entries_map_sublist whole held.count
    obtain ⟨some', length'⟩ := Contents.entries_map_sublist cut (count_take held.count _)
    -- all entries are owned by slots, and the same slots own no more than those that are left
    have all := some.eq_of_length (owned.here.2.trans length.symm)
    rw [Contents.resize] at same
    rw [same, all] at some'
    rw [Contents.len_resize, capacity_eq] at length'
    have within : x.len ≤ max c minCapacity := by
      have room := some'.length_le
      omega
    have rows := some'.eq_of_length_le (by omega)
    obtain ⟨keys, items⟩ := Contents.slots_eq_of_zip (fun z hz => whole.child hz)
      (fun z hz => cut.child hz) whole.even.here cut.even.here rows.symm
    have keysWithin := entriesWithin_of_slots x _ first (whole.child (Contents.mem_first x y))
      (cut.child (Contents.mem_first _ _)) (owned.child (Contents.mem_first x y)) keys
    have itemsWithin := entriesWithin_of_slots y _ second (whole.child (Contents.mem_second x y))
      (cut.child (Contents.mem_second _ _)) (owned.child (Contents.mem_second x y)) items
    rw [capacity_eq] at keysWithin itemsWithin
    exact ⟨first.len_eq.symm ▸ within, keysWithin, itemsWithin⟩
termination_by structural x => x

/-! ### What is read under another capacity -/

/-- A map never reads more entries than its capacity has slots. -/
theorem Holds.entries_le (h : Holds b (.map valid starts keys items sorted))
    (reads : (b.resize c).Reads vs) :
    (vs.flatMap Value.entries).length ≤ max c minCapacity := by
  obtain ⟨complete, rfl⟩ := (h.resize c).reads_iff.1 reads
  rw [Contents.resize] at complete ⊢
  cases h with
  | map held _ _ =>
    obtain ⟨some, length⟩ := Contents.entries_map_sublist complete (count_take held.count _)
    have fewer := some.length_le
    rw [length, Contents.len_resize, capacity_eq] at fewer
    exact Nat.le_trans fewer (Nat.min_le_right _ _)

/-- **A map that keeps all its slots.**  It reads the same values if the capacity covers its entries
and those of the maps that share it, and only then if all entries are of slots.  What it reads has
no more entries than the capacity has slots. -/
theorem resize_map {spans : Spans} {keys items : Builder}
    (h : Reached allowed (.map spans keys items sorted))
    (reads : (Builder.map spans keys items sorted).Reads vs)
    (room : vs.length ≤ max c minCapacity) :
    let b : Builder := .map spans keys items sorted
    (b.EntriesWithin (max c minCapacity) → (b.resize c).Reads vs) ∧
      (b.EntriesOwned → (b.resize c).Reads vs → b.EntriesWithin (max c minCapacity)) ∧
      ∀ ws, (b.resize c).Reads ws → (ws.flatMap Value.entries).length ≤ max c minCapacity := by
  intro b
  obtain ⟨x, held⟩ := h.holds
  obtain ⟨complete, rfl⟩ := held.reads_iff.1 reads
  rw [x.length_slots complete.even] at room
  refine ⟨fun within => ?_, fun owned same => ?_, fun ws => ?_⟩
  · -- nothing is dropped, so what was read is read again
    have kept := held.resize_eq x c complete.even room within
    have resized := held.resize c
    rw [kept] at resized
    exact resized.reads_iff.2 ⟨complete, rfl⟩
  · obtain ⟨cut, slots⟩ := (held.resize c).reads_iff.1 same
    exact held.entriesWithin_of_slots x c complete cut (held.entriesOwned_iff.1 owned) slots
  · cases held with
    | map spansHeld first second => exact (Holds.map spansHeld first second).entries_le

/-- A map of one entry more than the smallest capacity has slots. -/
def crowdedMap : List Value :=
  [.map ((List.range 33).map fun n => (.num (.int .int8) n, .num (.int .int8) n))]

theorem typed_crowdedMap :
    ∀ v ∈ crowdedMap, v.isOf (.map (.num (.int .int8)) (.num (.int .int8)) false) = true :=
  Value.areOf_iff.1 (by decide)

theorem small_crowdedMap :
    (Contents.ofValues (.map (.num (.int .int8)) (.num (.int .int8)) false) crowdedMap).Small :=
  .node (by decide) (List.forall_mem_cons.2
    ⟨.node (by decide) nofun, List.forall_mem_singleton.2 (.node (by decide) nofun)⟩)

theorem resize_map_crowded :
    ∃ spans keys items, Reached (fun _ _ => True) (.map spans keys items false) ∧
      (Builder.map spans keys items false).Reads crowdedMap ∧
      crowdedMap.length ≤ max 33 minCapacity ∧
      let b : Builder := .map spans keys items false
      (b.EntriesWithin (max 33 minCapacity) → (b.resize 33).Reads crowdedMap) ∧
        (b.EntriesOwned → (b.resize 33).Reads crowdedMap → b.EntriesWithin (max 33 minCapacity)) ∧
        ∀ ws, (b.resize 33).Reads ws →
          (ws.flatMap Value.entries).length ≤ max 33 minCapacity := by
  obtain ⟨-, b, -, -, reached, held, reads⟩ := exists_reads
    (t := .map (.num (.int .int8)) (.num (.int .int8)) false) true rfl typed_crowdedMap
    small_crowdedMap
  cases held with
  | map _ _ _ => exact ⟨_, _, _, reached, reads, by decide, resize_map reached reads (by decide)⟩

/-- A map keeps its only slot, but not the last of its entries. -/
theorem resize_crowdedMap :
    ∃ b b', make true (.map (.num (.int .int8)) (.num (.int .int8)) false) = .ok b ∧
      b.run (crowdedMap.flatMap Value.calls) = .ok b' ∧ b'.Reads crowdedMap ∧
      crowdedMap.length ≤ 1 ∧ ¬ (b'.resize 1).Reads crowdedMap := by
  obtain ⟨b, b', made, ran, -, held, reads⟩ := exists_reads
    (t := .map (.num (.int .int8)) (.num (.int .int8)) false) true rfl typed_crowdedMap
    small_crowdedMap
  exact ⟨b, b', made, ran, reads, by decide, fun same =>
    absurd (held.entries_le same) (by decide)⟩

/-! ### Maps that are appended -/

namespace Contents

theorem entriesOwned_of_complete
    (owned : Throughout children (fun y => y.Complete → y.OwnsEntries) x)
    (complete : x.Complete) : x.EntriesOwned := by
  induction owned with
  | node here _ ih => exact .node (here complete) fun y hy => ih y hy (complete.child hy)

/-- Entries that are appended with their slots are owned by them. -/
theorem entriesOwned_ofValues {t : DataType} (typed : ∀ v ∈ vs, v.isOf t = true)
    (complete : (ofValues t vs).Complete) : (ofValues t vs).EntriesOwned := by
  have here : OnValues fun x => x.Complete → x.OwnsEntries := by
    intro t vs typed complete
    cases t with
    | map key item sorted =>
      refine ⟨complete, ?_⟩
      have slots := slots_ofValues (.map key item sorted) vs typed
      rw [ofValues] at slots
      rw [slots, len_ofValues, List.length_map]
    | _ => trivial
  exact entriesOwned_of_complete (throughout_ofValues here t vs typed) complete

end Contents

/-- **Maps that are appended by their calls.**  Under a capacity that covers the slots they are read
exactly where it covers the entries too. -/
theorem resize_appended_maps (tracked : Bool) {key item : DataType}
    (buildable : (DataType.map key item sorted).isBuildable = true)
    (typed : ∀ v ∈ vs, v.isOf (.map key item sorted) = true)
    (small : (Contents.ofValues (.map key item sorted) vs).Small)
    (room : vs.length ≤ max c minCapacity) :
    ∃ b b', make tracked (.map key item sorted) = .ok b ∧
      b.run (vs.flatMap Value.calls) = .ok b' ∧ b'.Reads vs ∧
      ((b'.resize c).Reads vs ↔ b'.EntriesWithin (max c minCapacity)) := by
  obtain ⟨b, b', made, ran, reached, held, reads⟩ := exists_reads tracked buildable typed small
  have owned := Contents.entriesOwned_ofValues typed (held.reads_iff.1 reads).1
  refine ⟨b, b', made, ran, reads, ?_⟩
  cases held with
  | map spansHeld first second =>
    obtain ⟨kept, lost, -⟩ := resize_map reached reads room
    exact ⟨lost ((Holds.map spansHeld first second).entriesOwned_iff.2 owned), kept⟩

end Builder

end Columnar
