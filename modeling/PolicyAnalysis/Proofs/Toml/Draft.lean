import Mathlib.Data.List.Basic
import PolicyAnalysis.Toml.Draft

/-!
# Filling a table in the making

While the lines of a table are read, its path leads to what it holds so far, and every change there is put back into
the whole. The path leads on to a new entry of the table in the same way, whether it has a header or has only been
named in the header of a table inside it.
-/

namespace PolicyAnalysis.Toml.Node

variable {entries child : Entries} {key : String} {node node' : Node} {path : List String} {v : Toml}
  {put : Entries → Entries}

theorem lookup_concat (h : entries.lookup key = none) (node : Node) :
    (entries ++ [(key, node)]).lookup key = some node := by
  induction entries with
  | nil => exact List.lookup_cons_self
  | cons entry entries ih =>
    rw [List.lookup_cons] at h
    split at h
    next => cases h
    next hne =>
      rw [List.cons_append, List.lookup_cons, hne]
      exact ih h

theorem replace_concat (h : entries.lookup key = none) (node node' : Node) :
    replace (entries ++ [(key, node)]) key node' = entries ++ [(key, node')] := by
  rw [replace, List.map_append, List.map_singleton, if_pos rfl]
  congr 1
  refine (List.map_congr_left fun entry hentry => if_neg fun heq => ?_).trans (List.map_id _)
  exact bne_iff_ne.mp (List.lookup_eq_none_iff.mp h entry hentry) heq.symm

/-- Changing the table at the end of a path is a change of the table halfway. -/
theorem descend?_append (change : Entries → Option Entries) (path path' : List String) (entries : Entries) :
    descend? change (path ++ path') entries = descend? (descend? change path') path entries := by
  induction path generalizing entries with
  | nil => rfl
  | cons step path ih => simp only [List.cons_append, descend?, ih]

/-- A path leads to the entries `child`, and from then on to what `put` takes in. Both are stated since a table that
no header has named yet is made by its first change. -/
structure Leads (path : List String) (entries child : Entries) (put : Entries → Entries) : Prop where
  descend (change : Entries → Option Entries) : descend? change path entries = (change child).map put
  descend_put (change : Entries → Option Entries) (child : Entries) :
    descend? change path (put child) = (change child).map put

namespace Leads

theorem root (entries : Entries) : Leads [] entries entries id where
  descend _ := Option.map_id_apply.symm
  descend_put _ _ := Option.map_id_apply.symm

theorem put_child (h : Leads path entries child put) (child' : Entries) : Leads path (put child') child' put where
  descend change := h.descend_put change child'
  descend_put := h.descend_put

/-- Further on to the entry that was made last. -/
theorem table (h : Leads path entries child put) (hkey : child.lookup key = none) (origin : Origin)
    (inner : Entries) :
    Leads (path ++ [key]) (put (child ++ [(key, .table origin inner)])) inner
      fun inner => put (child ++ [(key, .table origin inner)]) := by
  have hlast (change : Entries → Option Entries) (inner : Entries) :
      descend? change (path ++ [key]) (put (child ++ [(key, .table origin inner)])) =
        (change inner).map fun inner => put (child ++ [(key, .table origin inner)]) := by
    rw [descend?_append, h.descend_put, descend?, lookup_concat hkey]
    simp only [descend?, Option.map_map, replace_concat hkey]
    rfl
  exact ⟨fun change => hlast change inner, hlast⟩

/-- Further on to an entry that there is not yet. -/
theorem passed (h : Leads path entries child put) (hkey : child.lookup key = none) :
    Leads (path ++ [key]) entries [] fun inner => put (child ++ [(key, .table .passed inner)]) where
  descend change := by
    rw [descend?_append, h.descend, descend?, hkey]
    simp only [descend?, Option.map_map]
    rfl
  descend_put := (h.table hkey .passed []).descend_put

theorem openTable? (h : Leads path entries child put) (hkey : child.lookup key = none) :
    descend? (openTable? key) path entries = some (put (child ++ [(key, .table .written [])])) := by
  rw [h.descend, Node.openTable?, hkey]
  rfl

theorem assign? (h : Leads path entries child put) (hkey : child.lookup key = none) (v : Toml) :
    descend? (Node.assign? key (.value v) [] true) path entries = some (put (child ++ [(key, .value v)])) := by
  rw [h.descend, Node.assign?, add?, hkey]
  rfl

end Leads

theorem tomlEntries_append (entries entries' : Entries) :
    tomlEntries (entries ++ entries') = tomlEntries entries ++ tomlEntries entries' := by
  induction entries with
  | nil => rfl
  | cons entry entries ih => rw [List.cons_append, tomlEntries, tomlEntries, ih, List.cons_append]

theorem keys_tomlEntries (entries : Entries) : (tomlEntries entries).map Prod.fst = entries.map Prod.fst := by
  induction entries with
  | nil => rfl
  | cons entry entries ih => rw [tomlEntries, List.map_cons, List.map_cons, ih]

theorem lookup_eq_none (h : key ∉ entries.map Prod.fst) : entries.lookup key = none := by
  rw [List.lookup_eq_none_iff]
  intro entry hentry
  exact bne_iff_ne.mpr fun heq => h (List.mem_map.mpr ⟨entry, hentry, heq.symm⟩)

end PolicyAnalysis.Toml.Node
