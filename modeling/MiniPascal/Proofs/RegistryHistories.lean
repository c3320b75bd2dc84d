import Mathlib.Data.Finset.Card
import Mathlib.Data.List.Forall2
import MiniPascal.Proofs.ScanRun

/-!
# What registries hold

A registry keeps its tokens in order and, by its index, the place of the first one with
each spelling.  An insertion changes both at once: the place is taken before the token
is appended, and a place that is known stays.  So the index is the search for a first
token (`Registry.Records`), through any history of insertions and scans and on every
copy, each of which goes on by itself.
-/

namespace MiniPascal

namespace Registry

variable {r : Registry} {ts : List Token}

/-- Both views of the registry are those of these tokens, inserted in this order. -/
structure Records (r : Registry) (ts : List Token) : Prop where
  toList : r.toList = ts
  index : ∀ lexeme, r.index[Lexeme.mk lexeme]? = ts.findIdx? (·.lexeme == lexeme)
  distinct : r.distinctLexemes = (ts.map Token.lexeme).toFinset.card

theorem records_empty : empty.Records [] :=
  ⟨rfl, fun _ => Std.HashMap.getElem?_empty, Std.HashMap.size_empty⟩

theorem Records.size (h : r.Records ts) : r.size = ts.length := by
  rw [← h.toList]
  exact Array.length_toList.symm

/-- The index knows just the spellings of the tokens. -/
theorem Records.mem_index_iff (h : r.Records ts) (lexeme : String) :
    Lexeme.mk lexeme ∈ r.index ↔ lexeme ∈ ts.map Token.lexeme := by
  rw [Std.HashMap.mem_iff_isSome_getElem?, h.index, List.findIdx?_isSome]
  simp

/-- The first token with a spelling stays the first one. -/
theorem Records.index_insert (h : r.Records ts) (t : Token) (lexeme : String) :
    (r.insert t).index[Lexeme.mk lexeme]? = (ts ++ [t]).findIdx? (·.lexeme == lexeme) := by
  have hinsert : (r.insert t).index = r.index.insertIfNew ⟨t.lexeme⟩ r.size := rfl
  rw [hinsert, Std.HashMap.getElem?_insertIfNew, h.index, h.size, List.findIdx?_append]
  simp only [h.mem_index_iff]
  by_cases hlexeme : t.lexeme = lexeme
  · -- a known spelling keeps its place, a new one gets the place behind all tokens
    subst hlexeme
    by_cases hknown : t.lexeme ∈ ts.map Token.lexeme
    · have hfound : (ts.findIdx? (·.lexeme == t.lexeme)).isSome = true := by
        rw [List.findIdx?_isSome]
        simpa using hknown
      obtain ⟨i, hi⟩ := Option.isSome_iff_exists.1 hfound
      simp [hknown, hi]
    · have hnone : ts.findIdx? (·.lexeme == t.lexeme) = none := by
        simpa [List.findIdx?_eq_none_iff] using hknown
      simp [hknown, hnone]
  · simp [hlexeme]

/-- A spelling is counted once. -/
theorem Records.distinct_insert (h : r.Records ts) (t : Token) :
    (r.insert t).distinctLexemes = ((ts ++ [t]).map Token.lexeme).toFinset.card := by
  have hinsert : (r.insert t).distinctLexemes = (r.index.insertIfNew ⟨t.lexeme⟩ r.size).size := rfl
  have hsize : r.index.size = (ts.map Token.lexeme).toFinset.card := h.distinct
  have hset : ((ts ++ [t]).map Token.lexeme).toFinset =
      Insert.insert t.lexeme (ts.map Token.lexeme).toFinset := by
    ext lexeme
    simp [eq_comm]
  rw [hinsert, Std.HashMap.size_insertIfNew, hset, hsize]
  by_cases hknown : t.lexeme ∈ ts.map Token.lexeme
  · rw [if_pos ((h.mem_index_iff _).2 hknown), Finset.card_insert_of_mem (by simpa using hknown)]
  · rw [if_neg (mt (h.mem_index_iff _).1 hknown),
      Finset.card_insert_of_notMem (by simpa using hknown)]

theorem Records.insert (h : r.Records ts) (t : Token) : (r.insert t).Records (ts ++ [t]) where
  toList := by
    rw [← h.toList]
    exact Array.toList_push
  index := h.index_insert t
  distinct := h.distinct_insert t

theorem Records.insertAll (h : r.Records ts) (us : List Token) :
    (r.insertAll us).Records (ts ++ us) := by
  induction us generalizing r ts with
  | nil => simpa [Registry.insertAll] using h
  | cons u us ih =>
      have hrest := ih (h.insert u)
      rwa [List.append_assoc] at hrest

theorem toList_ofList (ts : List Token) : (ofList ts).toList = ts :=
  (records_empty.insertAll ts).toList

/-- A reading inserts the token that it answers. -/
theorem Records.record (h : r.Records ts) (reading : Reading) :
    (r.record reading).Records (ts ++ reading.tokens) := by
  rw [record_eq_insertAll]
  exact h.insertAll reading.tokens

/-- A scan inserts the tokens before its fault, or all of them. -/
theorem Records.scan (h : r.Records ts) (text : String) :
    (r.scan text).1.Records (ts ++ (Cursor.ofString text).scan.1) :=
  h.insertAll _

/-- What a registry answers if just these tokens were inserted in it, in this order. -/
structure Holds (r : Registry) (ts : List Token) : Prop where
  tokens : r.tokens = ts.toArray
  toList : r.toList = ts
  size : r.size = ts.length
  isEmpty : r.isEmpty = ts.isEmpty
  first? : r.first? = ts.head?
  /-- The first token with the spelling is found. -/
  search : ∀ lexeme, r.search lexeme = ts.find? (·.lexeme == lexeme)
  /-- Nothing is found just if no token has the spelling. -/
  search_eq_none_iff : ∀ lexeme, r.search lexeme = none ↔ ∀ t ∈ ts, t.lexeme ≠ lexeme
  /-- The index leads to a token, which is so spelled. -/
  index_lt : ∀ lexeme i, r.index[Lexeme.mk lexeme]? = some i →
    ∃ h : i < r.tokens.size, r.tokens[i].lexeme = lexeme
  /-- Each spelling counts once. -/
  distinctLexemes : r.distinctLexemes = (ts.map Token.lexeme).toFinset.card

theorem Records.search (h : r.Records ts) (lexeme : String) :
    r.search lexeme = ts.find? (·.lexeme == lexeme) := by
  have htokens (i : Nat) : r.tokens[i]? = ts[i]? := by
    rw [← h.toList]
    exact Array.getElem?_toList.symm
  rw [List.find?_eq_bind_findIdx?_getElem?, ← h.index]
  exact congrArg _ (funext htokens)

theorem Records.index_lt (h : r.Records ts) {lexeme : String} {i : Nat}
    (hindex : r.index[Lexeme.mk lexeme]? = some i) :
    ∃ hi : i < r.tokens.size, r.tokens[i].lexeme = lexeme := by
  rw [h.index, List.findIdx?_eq_some_iff_getElem, ← h.toList] at hindex
  obtain ⟨hi, hlexeme, -⟩ := hindex
  have hsize : i < r.tokens.size := by rwa [Registry.toList, Array.length_toList] at hi
  exact ⟨hsize, eq_of_beq hlexeme⟩

theorem Records.holds (h : r.Records ts) : r.Holds ts where
  tokens := by
    rw [← h.toList]
    exact Array.toArray_toList.symm
  toList := h.toList
  size := h.size
  isEmpty := by
    rw [← h.toList]
    exact Array.isEmpty_toList.symm
  first? := by
    rw [← h.toList, List.head?_eq_getElem?]
    exact Array.getElem?_toList.symm
  search := h.search
  search_eq_none_iff lexeme := by
    rw [h.search, List.find?_eq_none]
    simp
  index_lt _ _ := h.index_lt
  distinctLexemes := h.distinct

/-! ### Histories -/

/-- What can be done with registries that are known by their numbers. -/
inductive Command where
  /-- Make an empty registry. -/
  | create
  /-- Insert a token. -/
  | insert (number : Nat) (t : Token)
  /-- Call a scanner once, wherever it stands in its text, and whatever it answered before. -/
  | read (number : Nat) (cursor : Cursor)
  /-- Scan a whole text, through its first fault. -/
  | scan (number : Nat) (text : String)
  /-- Make a copy of a registry. -/
  | clone (number : Nat)

/-- The registries after a command; a copy is a new one. -/
def Command.perform (rs : List Registry) : Command → List Registry
  | create => rs ++ [.empty]
  | insert number t => rs.modify number (·.insert t)
  | read number cursor => rs.modify number (·.record cursor.next.1)
  | scan number text => rs.modify number fun r => (r.scan text).1
  | clone number => rs ++ rs[number]?.toList

/-- The tokens that are inserted in each registry, after a command. -/
def Command.note (notes : List (List Token)) : Command → List (List Token)
  | create => notes ++ [[]]
  | insert number t => notes.modify number (· ++ [t])
  | read number cursor => notes.modify number (· ++ cursor.next.1.tokens)
  | scan number text => notes.modify number (· ++ (Cursor.ofString text).scan.1)
  | clone number => notes ++ notes[number]?.toList

/-- What relates the members of two lists is kept when related members are changed alike. -/
theorem forall₂_modify {α β : Type} {R : α → β → Prop} {f : α → α} {g : β → β} {xs : List α}
    {ys : List β} (h : List.Forall₂ R xs ys) (hR : ∀ x y, R x y → R (f x) (g y)) (i : Nat) :
    List.Forall₂ R (xs.modify i f) (ys.modify i g) := by
  induction h generalizing i with
  | nil => simp
  | cons hxy hrest ih =>
      cases i with
      | zero => exact .cons (hR _ _ hxy) hrest
      | succ i => exact .cons hxy (ih i)

/-- Members at the same place of the two lists are related. -/
theorem forall₂_getElem?_toList {α β : Type} {R : α → β → Prop} {xs : List α} {ys : List β}
    (h : List.Forall₂ R xs ys) (i : Nat) : List.Forall₂ R xs[i]?.toList ys[i]?.toList := by
  induction h generalizing i with
  | nil => simp
  | cons hxy hrest ih =>
      cases i with
      | zero => simpa using hxy
      | succ i => simpa using ih i

/-- Every command keeps the views of every registry in step with the tokens inserted in it. -/
theorem Command.perform_records {rs : List Registry} {notes : List (List Token)}
    (h : List.Forall₂ Records rs notes) (command : Command) :
    List.Forall₂ Records (command.perform rs) (command.note notes) := by
  cases command with
  | create => exact List.rel_append h (.cons records_empty .nil)
  | insert number t => exact forall₂_modify h (fun _ _ hr => hr.insert t) number
  | read number cursor => exact forall₂_modify h (fun _ _ hr => hr.record cursor.next.1) number
  | scan number text => exact forall₂_modify h (fun _ _ hr => hr.scan text) number
  | clone number => exact List.rel_append h (forall₂_getElem?_toList h number)

theorem foldl_perform_records (history : List Command) {rs : List Registry}
    {notes : List (List Token)} (h : List.Forall₂ Records rs notes) :
    List.Forall₂ Records (history.foldl Command.perform rs) (history.foldl Command.note notes) := by
  induction history generalizing rs notes with
  | nil => exact h
  | cons command history ih => exact ih (command.perform_records h)

/-- **Registries are consistent.**  After any history of creations, insertions, readings, scans,
with faults or without, and copies, every registry answers by the tokens that were inserted in it,
or in what it is a copy of until then: it holds them in order and counts them all, finds the first
one with a spelling if there is one, by an index that never leads outside, and counts each spelling
once. -/
theorem perform_holds_insertions (history : List Command) :
    List.Forall₂ Holds (history.foldl Command.perform []) (history.foldl Command.note []) :=
  (foldl_perform_records history .nil).imp fun _ _ h => h.holds

end Registry

/-! ### The registry of a text -/

theorem tokenize_eq_ok_iff {text : String} {r : Registry} :
    tokenize text = .ok r ↔ ∃ ts, scanText text = .ok ts ∧ r = .ofList ts := by
  unfold tokenize
  cases scanText text <;> simp [Except.map, eq_comm]

theorem tokenize_eq_error_iff {text : String} {fault : Fault} :
    tokenize text = .error fault ↔ scanText text = .error fault := by
  unfold tokenize
  cases scanText text <;> simp [Except.map]

end MiniPascal
