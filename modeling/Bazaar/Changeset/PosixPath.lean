import Bazaar.Python.Str
import Mathlib.Data.List.DropRight

/-!
# `posixpath`

`os.path.split` and `os.path.join` of Python 2's `posixpath`, which the changeset
tree uses to walk a path up to its directories, and the normalized relative paths
on which the two undo each other.
-/

namespace Bazaar
namespace Changeset

open Python

/-- A path, as `posixpath` reads it. -/
abbrev Path := Bytes

/-- `os.path.split(p)`: the head up to the last `/`, its trailing slashes stripped
unless it is all slashes, and the tail after it. -/
def split (p : Path) : Path × Path :=
  let i := (p.reverse.dropWhile (· != '/')).length
  let head := p.take i
  (if head ≠ [] ∧ ¬ head.all (· == '/') then head.rdropWhile (· == '/') else head, p.drop i)

/-- `os.path.join(a, b)`. -/
def join (a b : Path) : Path :=
  if b.head? = some '/' then b
  else if a = [] ∨ a.getLast? = some '/' then a ++ b
  else a ++ '/' :: b

/-- A normalized relative path: non-empty names without `/`, joined by single
slashes. -/
inductive Normal : Path → Prop
  | name {b : Path} : b ≠ [] → '/' ∉ b → Normal b
  | child {d b : Path} : Normal d → b ≠ [] → '/' ∉ b → Normal (d ++ '/' :: b)

/-!
# Splitting at the last slash
-/

theorem split_of_not_mem {p : Path} (h : '/' ∉ p) : split p = ([], p) := by
  have hdrop : p.reverse.dropWhile (· != '/') = [] :=
    List.dropWhile_eq_nil_iff.mpr fun c hc => by
      have : c ≠ '/' := fun e => h (e ▸ List.mem_reverse.mp hc)
      simpa using this
  simp [split, hdrop]

theorem split_of_last_slash (h : Path) {t : Path} (ht : '/' ∉ t) :
    split (h ++ '/' :: t) =
      (if h.all (· == '/') then h ++ ['/'] else h.rdropWhile (· == '/'), t) := by
  have hdrop : (h ++ '/' :: t).reverse.dropWhile (· != '/') = '/' :: h.reverse := by
    rw [List.reverse_append, List.reverse_cons, List.append_assoc, List.singleton_append,
      List.dropWhile_append_of_pos]
    · simp
    · intro c hc
      have : c ≠ '/' := fun e => ht (e ▸ List.mem_reverse.mp hc)
      simpa using this
  have htake : (h ++ '/' :: t).take (h.length + 1) = h ++ ['/'] := by
    simp [List.take_append_eq_append_take]
  have hdrop' : (h ++ '/' :: t).drop (h.length + 1) = t := by
    simp [List.drop_append_eq_append_drop]
  simp only [split, hdrop, List.length_cons, List.length_reverse, htake, hdrop']
  by_cases hall : h.all (· == '/')
  · simp [hall]
  · have hrd : (h ++ ['/']).rdropWhile (· == '/') = h.rdropWhile (· == '/') :=
      List.rdropWhile_concat_pos _ _ _ (by simp)
    simp [hall, hrd]

/-- A path with a slash splits at its last one. -/
theorem exists_last_slash : ∀ {p : Path}, '/' ∈ p → ∃ d t, p = d ++ '/' :: t ∧ '/' ∉ t
  | c :: p, h => by
      by_cases hp : '/' ∈ p
      · obtain ⟨d, t, rfl, ht⟩ := exists_last_slash hp
        exact ⟨c :: d, t, rfl, ht⟩
      · have hc : c = '/' := by
          rcases List.mem_cons.mp h with h | h
          · exact h.symm
          · exact absurd h hp
        exact ⟨[], p, by simp [hc], hp⟩

/-- A directory that neither is empty nor ends with a slash splits back off. -/
theorem split_child {d b : Path} (hd : d ≠ []) (hl : d.getLast? ≠ some '/') (hb : '/' ∉ b) :
    split (d ++ '/' :: b) = (d, b) := by
  have hlast : d.getLast hd ≠ '/' := fun h => hl (by rw [List.getLast?_eq_getLast d hd, h])
  have hall : ¬ d.all (· == '/') := fun h => hlast (by
    simpa using List.all_eq_true.mp h _ (List.getLast_mem hd))
  rw [split_of_last_slash d hb, if_neg hall,
    List.rdropWhile_eq_self_iff.mpr fun hne => by simpa using hlast]

/-- Each recursive step of `old_path` and `new_path` on a path that does not start
with a slash goes to a shorter directory that does not start with one either. -/
theorem split_fst_lt {p : Path} (hp : p.head? ≠ some '/') (hne : (split p).1 ≠ []) :
    (split p).1.length < p.length ∧ (split p).1.head? ≠ some '/' := by
  by_cases hs : '/' ∈ p
  · obtain ⟨d, t, rfl, ht⟩ := exists_last_slash hs
    obtain ⟨c, d, rfl⟩ : ∃ c d', d = c :: d' := by
      cases d with
      | nil => exact absurd rfl hp
      | cons c d => exact ⟨c, d, rfl⟩
    have hc : c ≠ '/' := fun h => hp (by simp [h])
    have hall : ¬ (c :: d).all (· == '/') := by simp [hc]
    rw [split_of_last_slash _ ht, if_neg hall] at hne ⊢
    obtain ⟨r, hr⟩ := List.rdropWhile_prefix (p := (· == '/')) (l := c :: d)
    constructor
    · have := congrArg List.length hr
      simp only [List.length_append, List.length_cons] at this ⊢
      omega
    · dsimp only at hne ⊢
      have hq : ((c :: d).rdropWhile (· == '/')).head? = some c := by
        rw [← List.head?_append_of_ne_nil _ hne, hr]; rfl
      simpa [hq] using hc
  · rw [split_of_not_mem hs] at hne
    exact absurd rfl hne

/-!
# Normalized paths
-/

namespace Normal

theorem ne_nil {p : Path} (h : Normal p) : p ≠ [] := by
  cases h with
  | name hb _ => exact hb
  | child _ _ _ => simp

theorem head?_ne {p : Path} (h : Normal p) : p.head? ≠ some '/' := by
  induction h with
  | name _ hs => exact fun h => hs (List.mem_of_mem_head? h)
  | child hd _ _ ih => rwa [List.head?_append_of_ne_nil _ hd.ne_nil]

theorem getLast?_ne {p : Path} (h : Normal p) : p.getLast? ≠ some '/' := by
  cases h with
  | name _ hs => exact fun h => hs (List.mem_of_mem_getLast? h)
  | child _ hb hs =>
      rw [← List.singleton_append, ← List.append_assoc, List.getLast?_append_of_ne_nil _ hb]
      exact fun h => hs (List.mem_of_mem_getLast? h)

theorem split_child {d b : Path} (hd : Normal d) (hb : '/' ∉ b) :
    split (d ++ '/' :: b) = (d, b) :=
  Changeset.split_child hd.ne_nil hd.getLast?_ne hb

end Normal

/-- Joining a normalized directory and a name puts one slash between them. -/
theorem join_normal {d b : Path} (hd : Normal d) (hs : '/' ∉ b) :
    join d b = d ++ '/' :: b := by
  have hhead : b.head? ≠ some '/' := fun h => hs (List.mem_of_mem_head? h)
  simp [join, hhead, hd.ne_nil, hd.getLast?_ne]

end Changeset
end Bazaar
