import Mathlib.Data.List.Nodup
import PolicyAnalysis.Json.Form
import PolicyAnalysis.Proofs.Grouping

/-!
# Reading back what has been written

A type's JSON form is lossless if every value is read back from what is written for it. Forms of lists, sets and
tables are lossless if those of their items are. That of an optional value is if, besides, nothing is written as null.
-/

namespace PolicyAnalysis

variable {α : Type}

/-- Every value is read back from what is written for it. -/
class Lossless (α : Type) [ToJson α] [OfJson α] : Prop where
  ofJson?_toJson (a : α) : ofJson? (toJson a) = some a

export Lossless (ofJson?_toJson)

/-- No value is written as null. -/
class NeverNull (α : Type) [ToJson α] : Prop where
  toJson_ne_null (a : α) : toJson a ≠ .null

/-- All values are listed, each under a name of its own. -/
class WellNamed (α : Type) [Named α] : Prop where
  mem_all (a : α) : a ∈ Named.all
  nodup_names : ((Named.all : List α).map Named.name).Nodup

theorem ofName?_name [Named α] [WellNamed α] (a : α) : Named.ofName? (Named.name a) = some a := by
  rw [Named.ofName?]
  cases hfind : (Named.all : List α).find? fun b => Named.name b == Named.name a with
  | none => exact absurd BEq.rfl (List.find?_eq_none.mp hfind a (WellNamed.mem_all a))
  | some b =>
    have hname : Named.name b = Named.name a := by simpa using List.find?_some hfind
    rw [List.inj_on_of_nodup_map WellNamed.nodup_names (List.mem_of_find?_eq_some hfind) (WellNamed.mem_all a) hname]

instance : Lossless String :=
  ⟨fun _ => rfl⟩

instance : NeverNull String :=
  ⟨nofun⟩

instance : Lossless Bool :=
  ⟨fun _ => rfl⟩

theorem Json.natBelow?_int {n bound : Nat} (h : n < bound) : (Json.int n).natBelow? bound = some n := by
  simp [natBelow?, h]

instance : Lossless UInt8 where
  ofJson?_toJson n := by
    simp [toJson, ofJson?, Json.natBelow?_int n.toNat_lt]

instance : Lossless UInt16 where
  ofJson?_toJson n := by
    simp [toJson, ofJson?, Json.natBelow?_int n.toNat_lt]

instance : Lossless Int64 where
  ofJson?_toJson n := by
    have hmin := n.minValue_le_toInt
    have hmax := n.toInt_le
    show (if _ then some (Int64.ofInt n.toInt) else none) = some n
    rw [if_pos (by simp only [decide_eq_true hmin, decide_eq_true hmax, Bool.and_self]), Int64.ofInt_toInt]

instance : NeverNull Int64 :=
  ⟨nofun⟩

instance (priority := low) [Named α] [WellNamed α] : Lossless α where
  ofJson?_toJson := ofName?_name

instance (priority := low) [Named α] : NeverNull α :=
  ⟨nofun⟩

instance [ToJson α] [OfJson α] [Lossless α] [NeverNull α] : Lossless (Option α) where
  ofJson?_toJson
    | none => rfl
    | some a => by
      have hread := ofJson?_toJson a
      have hnull := NeverNull.toJson_ne_null a
      show (match toJson a with | .null => some none | j => (ofJson? j).map some) = some (some a)
      split
      next hnone => exact absurd hnone hnull
      next => rw [hread, Option.map_some]

theorem mapM_map_eq_some {β : Type} {f : α → β} {g : β → Option α} (h : ∀ a, g (f a) = some a) (l : List α) :
    (l.map f).mapM g = some l := by
  induction l with
  | nil => rfl
  | cons a l ih =>
    rw [List.map_cons, List.mapM_cons, h a, ih]
    rfl

instance [ToJson α] [OfJson α] [Lossless α] : Lossless (List α) :=
  ⟨mapM_map_eq_some ofJson?_toJson⟩

theorem ofList_toList_set [Ord α] [Std.TransOrd α] [Std.LawfulEqOrd α] [DecidableEq α] (s : Std.ExtTreeSet α) :
    Std.ExtTreeSet.ofList s.toList = s := by
  apply Std.ExtTreeSet.ext_mem
  intro a
  rw [Std.ExtTreeSet.mem_ofList, List.contains_iff_mem, Std.ExtTreeSet.mem_toList]

instance [Ord α] [Std.TransOrd α] [Std.LawfulEqOrd α] [DecidableEq α] [ToJson α] [OfJson α] [Lossless α] :
    Lossless (Std.ExtTreeSet α) where
  ofJson?_toJson s := by
    show (ofJson? (toJson s.toList) : Option (List α)).map (Std.ExtTreeSet.ofList ·) = some s
    rw [ofJson?_toJson, Option.map_some, ofList_toList_set]

theorem nodup_names_toList (t : NameTable α) : (t.toList.map Prod.fst).Nodup := by
  refine List.pairwise_map.mpr (t.distinct_keys_toList.imp fun hne heq => hne ?_)
  rw [heq]
  exact Std.ReflCmp.compare_self

theorem ofList_toList (t : NameTable α) : Std.ExtTreeMap.ofList t.toList = t := by
  apply Std.ExtTreeMap.ext_getElem?
  intro name
  ext a
  rw [getElem?_ofList_eq_some_iff (nodup_names_toList t), Std.ExtTreeMap.mem_toList_iff_getElem?_eq_some]

instance [ToJson α] [OfJson α] [Lossless α] : Lossless (NameTable α) where
  ofJson?_toJson t := by
    have hentry (entry : String × α) :
        (ofJson? (toJson entry.2) : Option α).map (Prod.mk entry.1) = some entry := by
      rw [ofJson?_toJson, Option.map_some]
    have hread := mapM_map_eq_some (f := fun entry : String × α => (entry.1, toJson entry.2))
      (g := fun field => (ofJson? field.2).map (Prod.mk field.1)) hentry t.toList
    refine (congrArg (Option.map (Std.ExtTreeMap.ofList ·)) hread).trans ?_
    rw [Option.map_some, ofList_toList]

instance [ToJson α] : NeverNull (NameTable α) :=
  ⟨nofun⟩

namespace Json

@[simp]
theorem record?_obj (names : List String) (fields : List (String × Json)) :
    record? names (.obj fields) = some (names.map fun name => ((fields.lookup name).map Field.given).getD .absent) :=
  rfl

@[simp]
theorem lookup_cons (name name' : String) (j : Json) (fields : List (String × Json)) :
    ((name', j) :: fields).lookup name = if name = name' then some j else fields.lookup name := by
  rw [List.lookup_cons]
  split
  next heq => rw [if_pos (beq_iff_eq.mp heq)]
  next hne => rw [if_neg (beq_eq_false_iff_ne.mp hne)]

variable [ToJson α] [OfJson α]

@[simp]
theorem required?_given [Lossless α] (a : α) : (Field.given (toJson a)).required? = some a :=
  ofJson?_toJson a

@[simp]
theorem optional?_given [Lossless (Option α)] (a : Option α) : (Field.given (toJson a)).optional? = some a :=
  ofJson?_toJson a

@[simp]
theorem orElse?_given [Lossless α] (value a : α) : (Field.given (toJson a)).orElse? value = some a :=
  ofJson?_toJson a

end Json

end PolicyAnalysis
