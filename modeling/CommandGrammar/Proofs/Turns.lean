import CommandGrammar.Yaml.Meaning
import Mathlib.Tactic

/-!
# Every collection has its turn

The objects of a YAML text are made one after another: a collection waits until its turn comes. What is left to do
never grows, and each turn leaves less of it, so no collection still waits in the end. This holds of every graph of
nodes, also of one with loops.

* `Building.left` — what is left to do.
* `Advances` — steps after which no more is left than before; `advances_fill` is the step for one collection.
* `waiting_of_constructAll` — in the end nothing waits.
-/

namespace CommandGrammar.Yaml

variable {α β : Type} {b b' : Building}

/-- What is left to do: nodes that are no objects so far, and collections that wait. -/
def Building.left (b : Building) : Nat := b.objects.made.count none + b.waiting.length

/-- A step after which no more is left to do than before. -/
def Advances (step : Build α) : Prop :=
  ∀ (b b' : Building) (a : α), step.run b = .ok (a, b') → b'.left ≤ b.left

/-! ## Steps in general -/

theorem advances_pure (a : α) : Advances (pure a : Build α) := by
  intro b b' a' h
  obtain ⟨-, rfl⟩ := Prod.mk.inj (Except.ok.inj h)
  exact Nat.le_refl _

theorem advances_throw (fault : Fault) : Advances (throw fault : Build α) := by
  intro b b' a h
  cases h

theorem advances_lift (result : Except Fault α) : Advances (liftM result : Build α) := by
  intro b b' a h
  cases result with
  | error fault => cases h
  | ok c =>
    obtain ⟨-, rfl⟩ := Prod.mk.inj (Except.ok.inj h)
    exact Nat.le_refl _

theorem advances_modify {f : Building → Building} (h : ∀ b, (f b).left ≤ b.left) :
    Advances (modify f : Build Unit) := by
  intro b b' a hrun
  obtain ⟨-, rfl⟩ := Prod.mk.inj (Except.ok.inj hrun)
  exact h b

theorem Advances.bind {step : Build α} {next : α → Build β} (h : Advances step) (hnext : ∀ a, Advances (next a)) :
    Advances (step >>= next) := by
  intro b b'' c hrun
  rw [StateT.run_bind] at hrun
  cases hstep : step.run b with
  | error fault => rw [hstep] at hrun; cases hrun
  | ok p =>
    obtain ⟨a, b'⟩ := p
    rw [hstep] at hrun
    exact Nat.le_trans (hnext a b' b'' c hrun) (h b b' a hstep)

theorem advances_mapM {f : α → Build β} (h : ∀ a, Advances (f a)) (as : List α) : Advances (as.mapM f) := by
  induction as with
  | nil => exact advances_pure []
  | cons a as ih =>
    rw [List.mapM_cons]
    exact (h a).bind fun c => ih.bind fun cs => advances_pure (c :: cs)

theorem advances_foldlM {f : β → α → Build β} (h : ∀ c a, Advances (f c a)) (c : β) (as : List α) :
    Advances (as.foldlM f c) := by
  induction as generalizing c with
  | nil => exact advances_pure c
  | cons a as ih =>
    rw [List.foldlM_cons]
    exact (h c a).bind fun d => ih d

theorem advances_forM {f : α → Build PUnit} (h : ∀ a, Advances (f a)) (as : List α) : Advances (as.forM f) := by
  induction as with
  | nil => exact advances_pure ()
  | cons a as ih => exact (h a).bind fun _ => ih

theorem advances_get_bind {next : Building → Build α}
    (h : ∀ (b b' : Building) (a : α), (next b).run b = .ok (a, b') → b'.left ≤ b.left) :
    Advances (get >>= next) := h

/-! ## Objects -/

/-- Of the nodes without an object there is one fewer, if it was one of them that is made into an object. -/
theorem Objects.count_put (o : Objects) (id : NodeId) (object : Object) :
    (o.put id object).made.count none = o.made.count none - (if o.object? id = none then 1 else 0) := by
  unfold put object?
  by_cases hid : id < o.made.size
  · simp [Array.setIfInBounds, hid, Array.count_set, Array.getD]
  · simp [Array.setIfInBounds, hid, Array.getD]

/-- A node without an object is one of those that are counted. -/
theorem Objects.count_pos {o : Objects} {id : NodeId} (h : o.object? id = none) : 0 < o.made.count none := by
  unfold object? at h
  by_cases hid : id < o.made.size
  · rw [Array.getD, dif_pos hid] at h
    exact Array.count_pos_iff.mpr (h ▸ Array.getElem_mem hid)
  · rw [Array.getD, dif_neg hid] at h
    cases h

theorem advances_make (id : NodeId) (o : Object) : Advances (Build.make id o) := by
  refine advances_modify fun b => ?_
  have hcount := b.objects.count_put id o
  simp only [Building.left]
  omega

/-- A node that is promised waits, but it is no longer without an object. -/
theorem left_le_of_promise {id : NodeId} {o : Object} {a : Unit} (h : b.objects.object? id = none)
    (hrun : (Build.promise id o).run b = .ok (a, b')) : b'.left ≤ b.left := by
  obtain ⟨-, rfl⟩ := Prod.mk.inj (Except.ok.inj hrun)
  have hcount := b.objects.count_put id o
  have hpos := Objects.count_pos h
  simp only [Building.left, List.length_append, List.length_singleton]
  rw [if_pos h] at hcount
  omega

theorem advances_construct (id : NodeId) : Advances (construct id) := by
  refine advances_get_bind fun b b' a h => ?_
  split at h
  · exact advances_pure () b b' a h
  next hmade =>
  have hnone : b.objects.object? id = none := by simpa using hmade
  split at h
  case h_6 => exact (advances_lift _).bind (advances_make id) b b' a h
  all_goals exact left_le_of_promise hnone h

/-! ## Merge keys -/

/-- Whatever happens to the nodes, no more is left to do. -/
theorem advances_modify_graph (f : Building → Graph) : Advances (modify fun b => { b with graph := f b }) :=
  advances_modify fun _ => Nat.le_refl _

theorem advances_nodeOf (id : NodeId) : Advances (Build.nodeOf id) := advances_get_bind fun b => advances_pure _ b

theorem advances_entriesOf (id : NodeId) : Advances (Build.entriesOf id) := by
  refine (advances_nodeOf id).bind fun n => ?_
  cases n <;> exact advances_pure _

theorem advances_setEntries (id : NodeId) (entries : List (NodeId × NodeId)) :
    Advances (Build.setEntries id entries) :=
  (advances_nodeOf id).bind fun _ => advances_modify_graph _

theorem advances_mergeSources {flatten : NodeId → Build (List (NodeId × NodeId))}
    (h : ∀ id, Advances (flatten id)) (value : NodeId) : Advances (mergeSources flatten value) := by
  refine (advances_nodeOf value).bind fun n => ?_
  cases n with
  | scalar => exact advances_throw _
  | seq tag items => exact (advances_mapM h items).bind fun _ => advances_pure _
  | map => exact h value

theorem advances_takeMerges {flatten : NodeId → Build (List (NodeId × NodeId))}
    (h : ∀ id, Advances (flatten id)) (id : NodeId) (merges place : Nat) :
    Advances (takeMerges flatten id merges place) := by
  induction merges generalizing place with
  | zero => exact advances_pure []
  | succ merges ih =>
    refine (advances_entriesOf id).bind fun es => advances_get_bind fun b => ?_
    refine (advances_modify_graph _).bind (fun _ => ?_) b
    dsimp only
    split
    · exact advances_pure []
    · exact (advances_setEntries id _).bind fun _ =>
        (advances_mergeSources h _).bind fun _ => (ih _).bind fun _ => advances_pure _

theorem advances_flatten (calls : Nat) (id : NodeId) : Advances (flatten calls id) := by
  induction calls generalizing id with
  | zero => exact advances_throw _
  | succ calls ih =>
    refine (advances_nodeOf id).bind fun n => ?_
    cases n with
    | map tag es =>
      refine (advances_takeMerges ih id _ 0).bind fun merged => ?_
      dsimp only
      split
      · exact (advances_entriesOf id).bind fun own =>
          (advances_setEntries id _).bind fun _ => advances_entriesOf id
      · exact advances_entriesOf id
    | scalar | seq => exact advances_throw _

/-! ## Turns -/

theorem advances_mapEntries (id : NodeId) : Advances (mapEntries id) := by
  refine (advances_flatten openCalls id).bind fun es => advances_foldlM (fun before e => ?_) [] es
  refine (advances_construct e.1).bind fun _ => advances_get_bind fun b => ?_
  dsimp only
  split
  · exact advances_throw _ b
  · exact ((advances_construct e.2).bind fun _ => advances_get_bind fun b => advances_pure _ b) b

theorem advances_pair (item : NodeId) : Advances (pair item) := by
  refine (advances_nodeOf item).bind fun n => ?_
  split
  · next e => exact (advances_construct e.1).bind fun _ => (advances_construct e.2).bind fun _ => advances_pure e
  · exact advances_throw _

/-- **What is in a collection is made without leaving more to do.** -/
theorem advances_fill (id : NodeId) : Advances (fill id) := by
  refine (advances_nodeOf id).bind fun n => ?_
  split
  · exact (advances_forM advances_construct _).bind fun _ => advances_make id _
  · exact (advances_mapM advances_pair _).bind fun _ => advances_make id _
  · exact (advances_mapM advances_pair _).bind fun _ => advances_make id _
  · exact (advances_mapEntries id).bind fun _ => advances_make id _
  · exact (advances_mapEntries id).bind fun _ => advances_make id _
  · exact advances_throw _

/-- Without a collection that waits there is no turn. -/
theorem complete_of_nil (h : b.waiting = []) (fuel : Nat) : (complete (fuel + 1)).run b = .ok ((), b) := by
  obtain ⟨graph, objects, waiting⟩ := b
  subst h
  rfl

/-- The turn is that of the collection that has waited longest. -/
theorem complete_of_cons {id : NodeId} {rest : List NodeId} (h : b.waiting = id :: rest) (fuel : Nat) :
    (complete (fuel + 1)).run b = (fill id >>= fun _ => complete fuel).run { b with waiting := rest } := by
  obtain ⟨graph, objects, waiting⟩ := b
  subst h
  rfl

/-- **With a turn for all that is left to do, nothing waits in the end.** -/
theorem waiting_of_complete {fuel : Nat} (h : b.left ≤ fuel) {a : Unit}
    (hrun : (complete fuel).run b = .ok (a, b')) : b'.waiting = [] := by
  induction fuel generalizing b with
  | zero =>
    obtain ⟨-, rfl⟩ := Prod.mk.inj (Except.ok.inj hrun)
    exact List.length_eq_zero_iff.mp (by simp only [Building.left] at h; omega)
  | succ fuel ih =>
    cases hwaiting : b.waiting with
    | nil =>
      rw [complete_of_nil hwaiting] at hrun
      obtain ⟨-, rfl⟩ := Prod.mk.inj (Except.ok.inj hrun)
      exact hwaiting
    | cons id rest =>
      rw [complete_of_cons hwaiting, StateT.run_bind] at hrun
      cases hfill : (fill id).run { b with waiting := rest } with
      | error fault => rw [hfill] at hrun; cases hrun
      | ok p =>
        obtain ⟨c, filled⟩ := p
        rw [hfill] at hrun
        have hless := advances_fill id _ filled c hfill
        refine ih (b := filled) ?_ hrun
        simp only [Building.left, hwaiting, List.length_cons] at h hless ⊢
        omega

theorem left_start (g : Graph) : (Building.start g).left = g.nodes.size := by
  simp [Building.start, Building.left]

/-- **Every collection of a document has its turn**: in the end none waits. -/
theorem waiting_of_constructAll {g : Graph} {root : NodeId} {a : Unit}
    (h : (constructAll root g.nodes.size).run (.start g) = .ok (a, b)) : b.waiting = [] := by
  unfold constructAll at h
  rw [StateT.run_bind] at h
  cases hroot : (construct root).run (.start g) with
  | error fault => rw [hroot] at h; cases h
  | ok p =>
    obtain ⟨c, first⟩ := p
    rw [hroot] at h
    have hleft := advances_construct root _ first c hroot
    exact waiting_of_complete (left_start g ▸ hleft) h

end CommandGrammar.Yaml
