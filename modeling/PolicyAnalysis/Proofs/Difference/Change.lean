import PolicyAnalysis.Difference.Labels
import PolicyAnalysis.Difference.Symbols

/-!
# What a change says

Two items under one key are compared by some value of theirs. The change between them turns the value on the
left into the one on the right, and turned round it is the change back.
-/

namespace PolicyAnalysis

variable {α ι δ : Type}

namespace SetChange

variable [Ord α] [Std.TransOrd α]

/-- The set on the right, made from the one on the left. -/
def patch (c : SetChange α) (s : Std.ExtTreeSet α) : Std.ExtTreeSet α :=
  (s \ c.removed) ∪ c.added

def flip (c : SetChange α) : SetChange α :=
  ⟨c.removed, c.added, c.matched⟩

variable [Std.LawfulEqOrd α]

theorem patch_between (left right : Std.ExtTreeSet α) : (between left right).patch left = right := by
  ext a
  simp only [patch, between, Std.ExtTreeSet.mem_union_iff, Std.ExtTreeSet.mem_diff_iff]
  by_cases hleft : a ∈ left <;> simp [hleft]

theorem flip_between (left right : Std.ExtTreeSet α) : (between left right).flip = between right left := by
  have hmatched : left ∩ right = right ∩ left := by
    ext a
    simp only [Std.ExtTreeSet.mem_inter_iff]
    exact and_comm
  rw [flip, between, between, hmatched]

end SetChange

namespace ValueChange

def flip (c : ValueChange α) : ValueChange α :=
  ⟨c.removed, c.added⟩

def patch? (c : Option (ValueChange α)) (a : α) : α :=
  match c with
  | some c => c.added
  | none => a

variable [DecidableEq α]

theorem patch?_between? (left right : α) : patch? (between? left right) left = right := by
  by_cases h : left = right
  · rw [between?, if_pos h]
    exact h
  · rw [between?, if_neg h]
    rfl

theorem map_flip_between? (left right : α) : (between? left right).map flip = between? right left := by
  by_cases h : left = right
  · rw [between?, between?, if_pos h, if_pos h.symm]
    rfl
  · rw [between?, between?, if_neg h, if_neg (Ne.symm h)]
    rfl

end ValueChange

/-- The value that a function for changes compares items by, and what its changes say about it. -/
structure Gauge (change? : ι → ι → Option δ) where
  Value : Type
  value : ι → Value
  patch : δ → Value → Value
  flip : δ → δ
  eq_none_iff : ∀ left right, change? left right = none ↔ value left = value right
  patch_value : ∀ left right c, change? left right = some c → patch c (value left) = value right
  map_flip : ∀ left right, (change? left right).map flip = change? right left

namespace Gauge

/-- Changes that are given just where the values differ. -/
def ofChange {change? : ι → ι → Option δ} {Value : Type} [DecidableEq Value] (value : ι → Value)
    (change : ι → ι → δ) (patch : δ → Value → Value) (flip : δ → δ)
    (given : ∀ left right, change? left right =
      if value left = value right then none else some (change left right))
    (patch_change : ∀ left right, patch (change left right) (value left) = value right)
    (flip_change : ∀ left right, flip (change left right) = change right left) : Gauge change? where
  Value
  value
  patch
  flip
  eq_none_iff left right := by
    rw [given]
    by_cases h : value left = value right <;> simp [h]
  patch_value left right c hc := by
    rw [given, Option.ite_none_left_eq_some] at hc
    rw [← Option.some.inj hc.2]
    exact patch_change left right
  map_flip left right := by
    rw [given, given]
    by_cases h : value left = value right
    · rw [if_pos h, if_pos h.symm]
      rfl
    · rw [if_neg h, if_neg (Ne.symm h), Option.map_some, flip_change]

/-- Items that are there or not. -/
def presence : Gauge fun _ _ : ι => (none : Option Empty) where
  Value := Unit
  value _ := ()
  patch c _ := nomatch c
  flip c := nomatch c
  eq_none_iff _ _ := by simp
  patch_value _ _ c := nomatch c
  map_flip _ _ := rfl

def ofSet [Ord α] [Std.TransOrd α] [Std.LawfulEqOrd α] [DecidableEq (Std.ExtTreeSet α)]
    (set : ι → Std.ExtTreeSet α) : Gauge fun left right => SetChange.between? (set left) (set right) :=
  ofChange set (fun left right => .between (set left) (set right)) SetChange.patch SetChange.flip
    (fun _ _ => rfl) (fun _ _ => SetChange.patch_between _ _) fun _ _ => SetChange.flip_between _ _

def ofValue [DecidableEq α] (value : ι → α) :
    Gauge fun left right => ValueChange.between? (value left) (value right) :=
  ofChange value (fun left right => ⟨value right, value left⟩) (fun c _ => c.added) ValueChange.flip
    (fun _ _ => rfl) (fun _ _ => rfl) fun _ _ => rfl

def types : Gauge TypeSymbol.change? :=
  ofChange (fun t => (t.attributes, t.aliases, t.permissive))
    (fun left right => {
      attributes := .between left.attributes right.attributes
      aliases := .between left.aliases right.aliases
      permissive := ValueChange.between? left.permissive right.permissive })
    (fun c v => (c.attributes.patch v.1, c.aliases.patch v.2.1, ValueChange.patch? c.permissive v.2.2))
    (fun c => ⟨c.attributes.flip, c.aliases.flip, c.permissive.map ValueChange.flip⟩)
    (fun left right => by simp only [TypeSymbol.change?, Prod.mk.injEq])
    (fun left right => by simp only [SetChange.patch_between, ValueChange.patch?_between?])
    fun left right => by simp only [SetChange.flip_between, ValueChange.map_flip_between?]

def users : Gauge User.change? :=
  ofChange (fun u => (u.roles, u.level, u.range))
    (fun left right => {
      roles := .between left.roles right.roles
      level := ValueChange.between? left.level right.level
      range := ValueChange.between? left.range right.range })
    (fun c v => (c.roles.patch v.1, ValueChange.patch? c.level v.2.1, ValueChange.patch? c.range v.2.2))
    (fun c => ⟨c.roles.flip, c.level.map ValueChange.flip, c.range.map ValueChange.flip⟩)
    (fun left right => by simp only [User.change?, Prod.mk.injEq])
    (fun left right => by simp only [SetChange.patch_between, ValueChange.patch?_between?])
    fun left right => by simp only [SetChange.flip_between, ValueChange.map_flip_between?]

def defaults : Gauge DefaultRule.change? :=
  ofChange (fun rule => (rule.side, rule.part))
    (fun left right => {
      side := ValueChange.between? left.side right.side
      part := ValueChange.between? left.part right.part })
    (fun c v => (ValueChange.patch? c.side v.1, ValueChange.patch? c.part v.2))
    (fun c => ⟨c.side.map ValueChange.flip, c.part.map ValueChange.flip⟩)
    (fun left right => by simp only [DefaultRule.change?, Prod.mk.injEq])
    (fun left right => by simp only [ValueChange.patch?_between?])
    fun left right => by simp only [ValueChange.map_flip_between?]

def interfaces : Gauge InterfaceLabel.change? :=
  ofChange (fun label => (label.context, label.packet))
    (fun left right => {
      context := ValueChange.between? left.context right.context
      packet := ValueChange.between? left.packet right.packet })
    (fun c v => (ValueChange.patch? c.context v.1, ValueChange.patch? c.packet v.2))
    (fun c => ⟨c.context.map ValueChange.flip, c.packet.map ValueChange.flip⟩)
    (fun left right => by simp only [InterfaceLabel.change?, Prod.mk.injEq])
    (fun left right => by simp only [ValueChange.patch?_between?])
    fun left right => by simp only [ValueChange.map_flip_between?]

end Gauge

end PolicyAnalysis
