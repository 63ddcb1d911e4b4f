import TableSchema.Diagnostics

/-!
# What a resolution notes

A resolution gives a value and notes findings. `Resolve.Gives m a findings` says both at once for
every collection of diagnostics that is there before: the value is always `a`, and the diagnostics
of `findings` are put at the end, in order, and nothing else.

## Main definitions

* `Resolve.Gives`: the value and the findings of a resolution;
* `Resolve.value`: what a resolution gives when nothing was noted before;
* `Resolve.Always`: a property of what a resolution gives;
* `Resolve.Alike`: two resolutions give what looks the same.

## Main results

* `Resolve.Gives.bind`: two resolutions, one after the other;
* `Resolve.Gives.filterMapM` and `Resolve.Gives.foldlM`: a list, entry by entry.
-/

namespace TableSchema

/-- Adding no entries changes nothing. -/
theorem Diagnostics.append_nil (ds : Diagnostics) : ds.append ⟨[]⟩ = ds := by
  simp [Diagnostics.append]

/-- Entries may be added in two steps. -/
theorem Diagnostics.append_append (ds : Diagnostics) (first second : List Diagnostic) :
    (ds.append ⟨first⟩).append ⟨second⟩ = ds.append ⟨first ++ second⟩ := by
  simp [Diagnostics.append]

namespace Resolve

variable {α β : Type}

/-- What a resolution gives when nothing was noted before. -/
def value (m : Resolve α) : α :=
  (m.run .empty).1

/-- The resolution gives `a` whatever was noted before, and notes the findings, in order. -/
def Gives (m : Resolve α) (a : α) (findings : List Finding) : Prop :=
  ∀ ds : Diagnostics, m.run ds = (a, ds.append ⟨findings.map Finding.diagnostic⟩)

namespace Gives

/-- What is given is the value of the resolution. -/
theorem value_eq {m : Resolve α} {a : α} {findings : List Finding} (h : Gives m a findings) :
    m.value = a := by
  rw [value, h .empty]

/-- A value that is given whatever was noted before may be called the value. -/
theorem of_exists {m : Resolve α} {findings : List Finding} (h : ∃ a, Gives m a findings) :
    Gives m m.value findings := by
  obtain ⟨a, ha⟩ := h
  rwa [ha.value_eq]

/-- A resolution that does nothing notes nothing. -/
theorem pure (a : α) : Gives (Pure.pure a) a [] :=
  fun ds => Prod.ext rfl (Diagnostics.append_nil ds).symm

/-- Noting a finding notes just that one. -/
theorem note (f : Finding) : Gives (TableSchema.note f) () [f] :=
  fun _ => rfl

/-- Two resolutions note what the first notes, and then what the second notes. -/
theorem bind {m : Resolve α} {f : α → Resolve β} {a : α} {b : β} {findings others : List Finding}
    (hm : Gives m a findings) (hf : Gives (f a) b others) :
    Gives (m >>= f) b (findings ++ others) := by
  intro ds
  have hrun : (m >>= f).run ds = (f (m.run ds).1).run (m.run ds).2 := rfl
  rw [hrun, hm ds, hf, Diagnostics.append_append, List.map_append]

/-- The same when it does not matter what is given in the end. -/
theorem exists_bind {m : Resolve α} {f : α → Resolve β} {a : α} {findings others : List Finding}
    (hm : Gives m a findings) (hf : ∃ b, Gives (f a) b others) :
    ∃ b, Gives (m >>= f) b (findings ++ others) := by
  obtain ⟨b, hb⟩ := hf
  exact ⟨b, hm.bind hb⟩

/-- A function of what is resolved changes no finding. -/
theorem map {m : Resolve α} {a : α} {findings : List Finding} (hm : Gives m a findings)
    (f : α → β) : Gives (m >>= fun a => Pure.pure (f a)) (f a) findings := by
  simpa using hm.bind (f := fun a => Pure.pure (f a)) (Gives.pure (f a))

/-- A function of what is resolved, when it does not matter what is given. -/
theorem exists_map {m : Resolve α} {findings : List Finding} (hm : ∃ a, Gives m a findings)
    {f : α → β} : ∃ b, Gives (m >>= fun a => Pure.pure (f a)) b findings := by
  obtain ⟨a, ha⟩ := hm
  exact ⟨f a, ha.map f⟩

/-- A finding before a resolution that notes nothing. -/
theorem note_then {m : Resolve α} {a : α} (hm : Gives m a []) (f : Finding) :
    Gives (TableSchema.note f >>= fun _ => m) a [f] :=
  (note f).bind hm

/-- A list of which some entries are kept notes the findings of its entries, in order. -/
theorem filterMapM {step : α → Resolve (Option β)} {kept : α → Option β}
    {findings : α → List Finding} (hstep : ∀ a, Gives (step a) (kept a) (findings a))
    (as : List α) : Gives (as.filterMapM step) (as.filterMap kept) (as.flatMap findings) := by
  induction as with
  | nil => exact Gives.pure []
  | cons a as ih =>
    rw [List.filterMapM_cons, List.flatMap_cons, List.filterMap_cons]
    refine (hstep a).bind ?_
    -- What is kept of an entry stands before what is kept of the others.
    cases kept a with
    | none => exact ih
    | some b => exact ih.map (b :: ·)

/-- A fold over a list notes the findings of its entries, in order, if what a step notes does not
depend on what was folded before. -/
theorem foldlM {step : β → α → Resolve β} {findings : α → List Finding}
    (hstep : ∀ b a, ∃ b', Gives (step b a) b' (findings a)) (as : List α) (b : β) :
    ∃ b', Gives (as.foldlM step b) b' (as.flatMap findings) := by
  induction as generalizing b with
  | nil => exact ⟨b, Gives.pure b⟩
  | cons a as ih =>
    -- The induction hypothesis is needed at the next state, since each step may change it.
    obtain ⟨next, hnext⟩ := hstep b a
    obtain ⟨last, hlast⟩ := ih next
    refine ⟨last, ?_⟩
    rw [List.foldlM_cons, List.flatMap_cons]
    exact hnext.bind hlast

end Gives

/-- What the resolution gives has the property, whatever was noted before. -/
def Always (P : α → Prop) (m : Resolve α) : Prop :=
  ∀ ds, P (m.run ds).1

namespace Always

variable {P : α → Prop} {Q : β → Prop}

theorem pure {a : α} (h : P a) : Always P (Pure.pure a) :=
  fun _ => h

/-- What comes after a resolution may use what that gives. -/
theorem bind {m : Resolve α} {f : α → Resolve β} (hm : Always P m)
    (hf : ∀ a, P a → Always Q (f a)) : Always Q (m >>= f) :=
  fun ds => hf _ (hm ds) _

/-- What comes after a resolution need not look at what that gives. -/
theorem bind_any {m : Resolve α} {f : α → Resolve β} (hf : ∀ a, Always Q (f a)) :
    Always Q (m >>= f) :=
  fun _ => hf _ _

/-- What is kept of the entries of a list has what is kept of each of them. -/
theorem filterMapM {step : α → Resolve (Option β)}
    (hstep : ∀ a, Always (fun b? => ∀ b ∈ b?, Q b) (step a)) (as : List α) :
    Always (fun bs => ∀ b ∈ bs, Q b) (as.filterMapM step) := by
  induction as with
  | nil => exact .pure nofun
  | cons a as ih =>
    rw [List.filterMapM_cons]
    refine (hstep a).bind fun b? hb => ?_
    cases b? with
    | none => exact ih
    | some b => exact ih.bind fun bs hbs => .pure (List.forall_mem_cons.2 ⟨hb b rfl, hbs⟩)

/-- A fold over a list keeps what each of its steps keeps. -/
theorem foldlM {step : β → α → Resolve β} {as : List α}
    (hstep : ∀ b, ∀ a ∈ as, Q b → Always Q (step b a)) {b : β} (hb : Q b) :
    Always Q (as.foldlM step b) := by
  induction as generalizing b with
  | nil => exact .pure hb
  | cons a as ih =>
    rw [List.foldlM_cons]
    refine (hstep b a List.mem_cons_self hb).bind fun next hnext => ?_
    exact ih (fun b a ha => hstep b a (List.mem_cons_of_mem _ ha)) hnext

end Always

section Alike

variable {γ δ : Type}

/-- The resolutions give what looks the same, whatever was noted before each of them. -/
def Alike (view : α → γ) (m m' : Resolve α) : Prop :=
  ∀ ds ds', view (m.run ds).1 = view (m'.run ds').1

namespace Alike

variable {view : α → γ} {view' : β → δ} {m m' : Resolve α}

theorem pure {a a' : α} (h : view a = view a') : Alike view (Pure.pure a) (Pure.pure a') :=
  fun _ _ => h

/-- What a resolution gives whatever was noted before looks the same each time. -/
theorem of_gives {a : α} {findings : List Finding} (h : Gives m a findings) : Alike view m m :=
  fun ds ds' => by rw [h ds, h ds']

/-- What comes after resolutions that are alike may use that their values look the same. -/
theorem bind {f f' : α → Resolve β} (hm : Alike view m m')
    (hf : ∀ a a', view a = view a' → Alike view' (f a) (f' a')) :
    Alike view' (m >>= f) (m' >>= f') :=
  fun ds ds' => hf _ _ (hm ds ds') _ _

/-- Findings noted before change nothing. -/
theorem note_then (hm : Alike view m m') (f f' : Finding) :
    Alike view (note f >>= fun _ => m) (note f' >>= fun _ => m') :=
  fun _ _ => hm _ _

/-- A list of which some entries are kept, each of them replaced by one that looks the same. -/
theorem filterMapM {step : β → Resolve (Option α)} {g : β → β}
    (hstep : ∀ b, Alike (Option.map view) (step (g b)) (step b)) (bs : List β) :
    Alike (List.map view) ((bs.map g).filterMapM step) (bs.filterMapM step) := by
  induction bs with
  | nil => exact .pure rfl
  | cons b bs ih =>
    rw [List.map_cons, List.filterMapM_cons, List.filterMapM_cons]
    refine (hstep b).bind fun a? a?' ha => ?_
    cases a? with
    | none =>
      obtain rfl : a?' = none := Option.map_eq_none_iff.1 ha.symm
      exact ih
    | some a =>
      obtain ⟨a', rfl, hview⟩ := Option.map_eq_some_iff.1 ha.symm
      exact ih.bind fun as as' has => .pure (by rw [List.map_cons, List.map_cons, hview, has])

/-- A fold over a list, each entry replaced by one that has the same effect. -/
theorem foldlM {step : α → β → Resolve α} {g : β → β}
    (hstep : ∀ a a' b, view a = view a' → Alike view (step a (g b)) (step a' b)) (bs : List β)
    {a a' : α} (h : view a = view a') :
    Alike view ((bs.map g).foldlM step a) (bs.foldlM step a') := by
  induction bs generalizing a a' with
  | nil => exact .pure h
  | cons b bs ih =>
    rw [List.map_cons, List.foldlM_cons, List.foldlM_cons]
    exact (hstep a a' b h).bind fun _ _ => ih

end Alike

end Alike

end Resolve

end TableSchema
