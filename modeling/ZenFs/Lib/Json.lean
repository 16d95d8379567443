import Mathlib.Algebra.GroupWithZero.Nat
import Mathlib.Data.List.Forall2
import Mathlib.Data.Nat.Basic

/-!
# JSON values and their tokens

A value has one sequence of tokens without anything in between, and a machine with a stack
reads it back: it accepts the tokens of a value and no others.  What a value says about an
object is found by key, and of members with the same key the last one counts.
-/

namespace Json

/-- The characters of a string, by their codes. -/
abbrev Text := List Nat

/-- A number as it is written, with the digits behind the point. -/
structure Number where
  negative : Bool := false
  whole : Nat
  fraction : Option (List Char) := none
  exponent : Option (Bool × Nat) := none
deriving DecidableEq, Repr

inductive Token where
  | openObj
  | closeObj
  | openArr
  | closeArr
  | comma
  | colon
  | null
  | bool (b : Bool)
  | num (n : Number)
  | str (s : Text)
deriving DecidableEq, Repr

end Json

/-- A JSON value. -/
inductive Json where
  | null
  | bool (b : Bool)
  | num (n : Json.Number)
  | str (s : Json.Text)
  | arr (vs : List Json)
  | obj (ms : List (Json.Text × Json))
deriving Repr

namespace Json

/-- An integer that is not negative. -/
def nat (n : Nat) : Json := .num { whole := n }

/-! ## Access -/

/-- The value of a key; of members with the same key the last one counts. -/
def get (k : Text) : Json → Option Json
  | .obj ms => ms.reverse.lookup k
  | _ => none

def items : Json → Option (List Json)
  | .arr vs => some vs
  | _ => none

def int? : Json → Option Int
  | .num ⟨negative, n, none, none⟩ => some (if negative then -n else n)
  | _ => none

def text? : Json → Option Text
  | .str s => some s
  | _ => none

@[simp] theorem int?_nat (n : Nat) : (nat n).int? = some (n : Int) := rfl

theorem get_mem {k : Text} {v w : Json} (h : v.get k = some w) :
    ∃ ms, v = .obj ms ∧ (k, w) ∈ ms := by
  unfold get at h
  split at h
  · next ms =>
    obtain ⟨l₁, l₂, hms, -⟩ := List.lookup_eq_some_iff.mp h
    exact ⟨ms, rfl, List.mem_reverse.mp (hms ▸ by simp)⟩
  · cases h

theorem mapM_map_eq_some {α β γ : Type*} {f : β → Option γ} {g : α → β} {k : α → γ}
    (h : ∀ a, f (g a) = some (k a)) (as : List α) : (as.map g).mapM f = some (as.map k) := by
  induction as with
  | nil => rfl
  | cons a as ih => simp [h, ih]

/-- What is found element by element. -/
theorem forall₂_of_mapM {α β : Type*} {f : α → Option β} {as : List α} {bs : List β}
    (h : as.mapM f = some bs) : List.Forall₂ (fun a b ↦ f a = some b) as bs := by
  induction as generalizing bs with
  | nil =>
    cases h
    exact .nil
  | cons a as ih =>
    simp only [List.mapM_cons, Option.bind_eq_bind, Option.bind_eq_some_iff] at h
    obtain ⟨b, hb, bs', hbs', heq⟩ := h
    cases heq
    exact .cons hb (ih hbs')

/-! ## The tokens of a value -/

mutual

/-- The tokens of a value. -/
def tokens : Json → List Token
  | .null => [.null]
  | .bool b => [.bool b]
  | .num n => [.num n]
  | .str s => [.str s]
  | .arr vs => .openArr :: List.intercalate [.comma] (elements vs) ++ [.closeArr]
  | .obj ms => .openObj :: List.intercalate [.comma] (members ms) ++ [.closeObj]

/-- The tokens of each element. -/
def elements : List Json → List (List Token)
  | [] => []
  | v :: vs => tokens v :: elements vs

/-- The tokens of each member. -/
def members : List (Text × Json) → List (List Token)
  | [] => []
  | (k, v) :: ms => (.str k :: .colon :: tokens v) :: members ms

end

theorem elements_eq (vs : List Json) : elements vs = vs.map tokens := by
  induction vs with
  | nil => rfl
  | cons v vs ih => rw [elements, ih, List.map_cons]

theorem members_eq (ms : List (Text × Json)) :
    members ms = ms.map fun m ↦ .str m.1 :: .colon :: tokens m.2 := by
  induction ms with
  | nil => rfl
  | cons m ms ih => rw [members, ih, List.map_cons]

theorem forall_mem_intercalate {P : Token → Prop} (hcomma : P .comma) {ts : List (List Token)} :
    (∀ t ∈ List.intercalate [.comma] ts, P t) ↔ ∀ us ∈ ts, ∀ t ∈ us, P t := by
  induction ts with
  | nil => simp
  | cons us ts ih =>
    cases ts with
    | nil => simp
    | cons vs ts =>
      rw [List.intercalate_cons_cons, List.forall_mem_append, List.forall_mem_append,
        List.forall_mem_singleton, ih, List.forall_mem_cons (a := us)]
      exact ⟨fun h ↦ ⟨h.1.1, h.2⟩, fun h ↦ ⟨⟨h.1, hcomma⟩, h.2⟩⟩

/-- What holds of all tokens of an array, if it holds of brackets and commas. -/
theorem forall_mem_arr {P : Token → Prop} (hopen : P .openArr) (hcomma : P .comma)
    (hclose : P .closeArr) {vs : List Json} :
    (∀ t ∈ tokens (.arr vs), P t) ↔ ∀ v ∈ vs, ∀ t ∈ tokens v, P t := by
  rw [tokens, List.cons_append, List.forall_mem_cons, List.forall_mem_append,
    List.forall_mem_singleton, forall_mem_intercalate hcomma, elements_eq, List.forall_mem_map]
  exact ⟨fun h ↦ h.2.1, fun h ↦ ⟨hopen, h, hclose⟩⟩

/-- What holds of all tokens of an object, if it holds of braces, commas and colons. -/
theorem forall_mem_obj {P : Token → Prop} (hopen : P .openObj) (hcomma : P .comma)
    (hcolon : P .colon) (hclose : P .closeObj) {ms : List (Text × Json)} :
    (∀ t ∈ tokens (.obj ms), P t) ↔ ∀ m ∈ ms, P (.str m.1) ∧ ∀ t ∈ tokens m.2, P t := by
  rw [tokens, List.cons_append, List.forall_mem_cons, List.forall_mem_append,
    List.forall_mem_singleton, forall_mem_intercalate hcomma, members_eq, List.forall_mem_map]
  simp only [List.forall_mem_cons]
  exact ⟨fun h m hm ↦ ⟨(h.2.1 m hm).1, (h.2.1 m hm).2.2⟩,
    fun h ↦ ⟨hopen, fun m hm ↦ ⟨(h m hm).1, hcolon, (h m hm).2⟩, hclose⟩⟩

/-! ## The machine -/

/-- What a value is part of: the elements before it, or the members before it and its key. -/
inductive Frame where
  | arr (vs : List Json)
  | obj (ms : List (Text × Json)) (k : Text)

/-- What comes next: a value; the first element or the end of an array; what follows a value;
the first key or the end of an object; a key; or a colon. -/
inductive State where
  | value (fs : List Frame)
  | firstElement (fs : List Frame)
  | after (v : Json) (fs : List Frame)
  | firstKey (fs : List Frame)
  | key (ms : List (Text × Json)) (fs : List Frame)
  | colon (ms : List (Text × Json)) (k : Text) (fs : List Frame)

/-- The first token of a value. -/
def begin (fs : List Frame) : Token → Option State
  | .null => some (.after .null fs)
  | .bool b => some (.after (.bool b) fs)
  | .num n => some (.after (.num n) fs)
  | .str s => some (.after (.str s) fs)
  | .openArr => some (.firstElement fs)
  | .openObj => some (.firstKey fs)
  | _ => none

/-- A token behind a value. -/
def close (v : Json) : List Frame → Token → Option State
  | .arr vs :: fs, .comma => some (.value (.arr (vs ++ [v]) :: fs))
  | .arr vs :: fs, .closeArr => some (.after (.arr (vs ++ [v])) fs)
  | .obj ms k :: fs, .comma => some (.key (ms ++ [(k, v)]) fs)
  | .obj ms k :: fs, .closeObj => some (.after (.obj (ms ++ [(k, v)])) fs)
  | _, _ => none

def step : State → Token → Option State
  | .value fs, t => begin fs t
  | .firstElement fs, .closeArr => some (.after (.arr []) fs)
  | .firstElement fs, t => begin (.arr [] :: fs) t
  | .after v fs, t => close v fs t
  | .firstKey fs, .closeObj => some (.after (.obj []) fs)
  | .firstKey fs, .str k => some (.colon [] k fs)
  | .firstKey _, _ => none
  | .key ms fs, .str k => some (.colon ms k fs)
  | .key _ _, _ => none
  | .colon ms k fs, .colon => some (.value (.obj ms k :: fs))
  | .colon _ _ _, _ => none

/-- The steps of the machine. -/
def run : State → List Token → Option State
  | s, [] => some s
  | s, t :: ts => (step s t).bind fun s' ↦ run s' ts

/-- The value that the tokens are the tokens of. -/
def parse (ts : List Token) : Option Json :=
  match run (.value []) ts with
  | some (.after v []) => some v
  | _ => none

theorem run_cons (s : State) (t : Token) (ts : List Token) :
    run s (t :: ts) = (step s t).bind fun s' ↦ run s' ts := rfl

theorem run_append (s : State) (ts us : List Token) :
    run s (ts ++ us) = (run s ts).bind fun s' ↦ run s' us := by
  induction ts generalizing s with
  | nil => rfl
  | cons t ts ih =>
    rw [List.cons_append, run_cons, run_cons]
    cases step s t with
    | none => rfl
    | some s' => exact ih s'

/-! ## What the machine accepts

The tokens that have been read are determined by the state. -/

/-- The tokens of the elements in front of another one. -/
def before (ts : List (List Token)) : List Token := ts.flatMap (· ++ [.comma])

/-- The tokens of what is open. -/
def opened : List Frame → List Token
  | [] => []
  | .arr vs :: fs => opened fs ++ .openArr :: before (elements vs)
  | .obj ms k :: fs => opened fs ++ .openObj :: before (members ms) ++ [.str k, .colon]

/-- The tokens that lead to a state. -/
def yield : State → List Token
  | .value fs => opened fs
  | .firstElement fs => opened fs ++ [.openArr]
  | .after v fs => opened fs ++ tokens v
  | .firstKey fs => opened fs ++ [.openObj]
  | .key ms fs => opened fs ++ .openObj :: before (members ms)
  | .colon ms k fs => opened fs ++ .openObj :: before (members ms) ++ [.str k]

theorem intercalate_concat (ts : List (List Token)) (t : List Token) :
    List.intercalate [.comma] (ts ++ [t]) = before ts ++ t := by
  induction ts with
  | nil => simp [before]
  | cons u ts ih => simp [List.intercalate_cons_of_ne_nil, ih, before]

theorem before_concat (ts : List (List Token)) (t : List Token) :
    before (ts ++ [t]) = before ts ++ t ++ [.comma] := by
  simp [before]

theorem tokens_arr_concat (vs : List Json) (v : Json) :
    tokens (.arr (vs ++ [v])) = .openArr :: before (elements vs) ++ tokens v ++ [.closeArr] := by
  rw [tokens, elements_eq, List.map_append, List.map_singleton, intercalate_concat, ← elements_eq]
  simp

theorem tokens_obj_concat (ms : List (Text × Json)) (k : Text) (v : Json) :
    tokens (.obj (ms ++ [(k, v)])) =
      .openObj :: before (members ms) ++ .str k :: .colon :: tokens v ++ [.closeObj] := by
  rw [tokens, members_eq, List.map_append, List.map_singleton, intercalate_concat, ← members_eq]
  simp

theorem begin_yield {fs : List Frame} {t : Token} {s : State} (h : begin fs t = some s) :
    yield s = opened fs ++ [t] := by
  cases t <;> cases h <;> simp [yield, tokens]

theorem close_yield {v : Json} {fs : List Frame} {t : Token} {s : State}
    (h : close v fs t = some s) : yield s = opened fs ++ tokens v ++ [t] := by
  unfold close at h
  split at h <;> cases h
  · simp [yield, opened, elements_eq, before_concat]
  · simp [yield, opened, tokens_arr_concat]
  · simp [yield, opened, members_eq, before_concat]
  · simp [yield, opened, tokens_obj_concat]

theorem step_yield {s s' : State} {t : Token} (h : step s t = some s') :
    yield s' = yield s ++ [t] := by
  unfold step at h
  split at h
  case h_1 => exact begin_yield h
  case h_3 fs t _ =>
    rw [begin_yield h]
    simp [opened, before, elements, yield]
  case h_4 => exact close_yield h
  all_goals cases h
  all_goals simp [yield, opened, tokens, before, elements, members]

theorem run_yield {s s' : State} {ts : List Token} (h : run s ts = some s') :
    yield s' = yield s ++ ts := by
  induction ts generalizing s with
  | nil =>
    cases h
    exact (List.append_nil _).symm
  | cons t ts ih =>
    obtain ⟨s₁, hstep, hrun⟩ := Option.bind_eq_some_iff.mp h
    rw [ih hrun, step_yield hstep, List.append_assoc, List.singleton_append]

/-! ## The machine reads every value -/

/-- The first element of an array is read like any other. -/
theorem run_firstElement (v : Json) (fs : List Frame) (ts : List Token) :
    run (.firstElement fs) (tokens v ++ ts) = run (.value (.arr [] :: fs)) (tokens v ++ ts) := by
  cases v <;> simp [tokens, run_cons, step]

/-- The first key of an object is read like any other. -/
theorem run_firstKey (k : Text) (fs : List Frame) (ts : List Token) :
    run (.firstKey fs) (.str k :: ts) = run (.key [] fs) (.str k :: ts) := rfl

mutual

/-- From where a value is expected, its tokens lead to where it has been read. -/
theorem run_tokens (v : Json) (fs : List Frame) (ts : List Token) :
    run (.value fs) (tokens v ++ ts) = run (.after v fs) ts := by
  match v with
  | .null | .bool b | .num n | .str s => simp [tokens, run_cons, step, begin]
  | .arr [] => simp [tokens, elements, run_cons, step, begin]
  | .arr (v :: vs) =>
    have hvs := run_elements (v :: vs) (List.cons_ne_nil v vs) [] fs ts
    obtain ⟨us, hus⟩ : ∃ us, List.intercalate [.comma] (elements (v :: vs)) = tokens v ++ us := by
      cases vs <;> simp [elements]
    rw [hus, List.append_assoc] at hvs
    rw [tokens, hus, List.append_assoc, List.cons_append, List.append_assoc,
      List.singleton_append, run_cons]
    simpa only [step, begin, Option.bind_some, run_firstElement, List.nil_append] using hvs
  | .obj [] => simp [tokens, members, run_cons, step, begin]
  | .obj ((k, v) :: ms) =>
    have hms := run_members ((k, v) :: ms) (List.cons_ne_nil (k, v) ms) [] fs ts
    obtain ⟨us, hus⟩ : ∃ us, List.intercalate [.comma] (members ((k, v) :: ms)) = .str k :: us := by
      cases ms <;> simp [members]
    rw [hus, List.cons_append] at hms
    rw [tokens, hus, List.append_assoc, List.cons_append, List.cons_append,
      List.singleton_append, run_cons]
    simpa only [step, begin, Option.bind_some, run_firstKey, List.nil_append] using hms

theorem run_elements (vs : List Json) (hvs : vs ≠ []) (us : List Json) (fs : List Frame)
    (ts : List Token) :
    run (.value (.arr us :: fs)) (List.intercalate [.comma] (elements vs) ++ .closeArr :: ts) =
      run (.after (.arr (us ++ vs)) fs) ts := by
  match vs with
  | [v] => simp [elements, run_tokens v, run_cons, step, close]
  | v :: w :: vs =>
    have hrest := run_elements (w :: vs) (List.cons_ne_nil w vs) (us ++ [v]) fs ts
    simpa [elements, run_tokens v, run_cons, step, close] using hrest

theorem run_members (ms : List (Text × Json)) (hms : ms ≠ []) (ns : List (Text × Json))
    (fs : List Frame) (ts : List Token) :
    run (.key ns fs) (List.intercalate [.comma] (members ms) ++ .closeObj :: ts) =
      run (.after (.obj (ns ++ ms)) fs) ts := by
  match ms with
  | [(k, v)] => simp [members, run_tokens v, run_cons, step, close]
  | (k, v) :: m :: ms =>
    have hrest := run_members (m :: ms) (List.cons_ne_nil m ms) (ns ++ [(k, v)]) fs ts
    simpa [members, run_tokens v, run_cons, step, close] using hrest

end

theorem parse_tokens (v : Json) : parse (tokens v) = some v := by
  have hrun : run (.value []) (tokens v) = some (.after v []) := by
    simpa [run] using run_tokens v [] []
  rw [parse, hrun]

theorem parse_eq_some_iff {ts : List Token} {v : Json} : parse ts = some v ↔ ts = tokens v := by
  refine ⟨fun h ↦ ?_, fun h ↦ h ▸ parse_tokens v⟩
  unfold parse at h
  split at h
  · next v' hrun =>
    cases h
    simpa [yield, opened] using (run_yield hrun).symm
  · cases h

/-! ## How much a value takes

Every token takes some room `w`.  An object takes at least the room of the members that are
found in it. -/

section Weight

variable (w : Token → Nat)

/-- The room of some tokens. -/
def room (ts : List Token) : Nat := (ts.map w).sum

/-- The room of a value. -/
def weight (v : Json) : Nat := room w (tokens v)

variable {w}

@[simp] theorem room_nil : room w [] = 0 := rfl

@[simp] theorem room_cons (t : Token) (ts : List Token) : room w (t :: ts) = w t + room w ts := rfl

@[simp] theorem room_append (ts us : List Token) : room w (ts ++ us) = room w ts + room w us := by
  simp [room]

theorem room_intercalate {ts : List (List Token)} (h : ts ≠ []) :
    room w (List.intercalate [.comma] ts) + w .comma =
    (ts.map fun t ↦ room w t + w .comma).sum := by
  induction ts with
  | nil => exact absurd rfl h
  | cons t ts ih =>
    cases ts with
    | nil => simp
    | cons u ts =>
      have hrest := ih (List.cons_ne_nil u ts)
      rw [List.map_cons, List.sum_cons, ← hrest, List.intercalate_cons_cons]
      simp
      omega

/-- Items with different keys that are all found among others, where they weigh at least as
much. -/
theorem sum_le_of_found {K V : Type*} {f : K × V → Nat} {ps ms : List (K × V)}
    (hps : (ps.map Prod.fst).Nodup) (h : ∀ p ∈ ps, ∃ m ∈ ms, m.1 = p.1 ∧ f p ≤ f m) :
    (ps.map f).sum ≤ (ms.map f).sum := by
  induction ps generalizing ms with
  | nil => exact Nat.zero_le _
  | cons p ps ih =>
    obtain ⟨hp, hnodup⟩ := List.nodup_cons.mp hps
    obtain ⟨m, hm, hkey, hle⟩ := h p List.mem_cons_self
    obtain ⟨s, t, rfl⟩ := List.append_of_mem hm
    have hrest : (ps.map f).sum ≤ ((s ++ t).map f).sum := by
      refine ih hnodup fun q hq ↦ ?_
      obtain ⟨n, hn, hn', hle'⟩ := h q (List.mem_cons_of_mem p hq)
      refine ⟨n, ?_, hn', hle'⟩
      rcases List.mem_append.mp hn with hn | hn
      · exact List.mem_append_left t hn
      rcases List.mem_cons.mp hn with rfl | hn
      · exact absurd (List.mem_map.mpr ⟨q, hq, hn'.symm.trans hkey⟩) hp
      · exact List.mem_append_right s hn
    simp only [List.map_append, List.sum_append, List.map_cons, List.sum_cons] at hrest ⊢
    omega

theorem weight_arr_le {us vs : List Json}
    (h : List.Forall₂ (fun u v ↦ weight w u ≤ weight w v) us vs) :
    weight w (.arr us) ≤ weight w (.arr vs) := by
  have hsum : ((elements us).map fun t ↦ room w t + w .comma).sum ≤
      ((elements vs).map fun t ↦ room w t + w .comma).sum := by
    induction h with
    | nil => exact le_rfl
    | cons huv _ ih =>
      simp only [elements, List.map_cons, List.sum_cons]
      unfold weight at huv
      omega
  cases h with
  | nil => exact le_rfl
  | cons huv hrest =>
    rw [← room_intercalate (by simp [elements]), ← room_intercalate (by simp [elements])] at hsum
    simp only [weight, tokens, room_append, List.cons_append, room_cons] at hsum ⊢
    omega

theorem weight_obj_le {ps : List (Text × Json)} {v : Json} (hne : ps ≠ [])
    (hps : (ps.map Prod.fst).Nodup)
    (h : ∀ p ∈ ps, ∃ q, v.get p.1 = some q ∧ weight w p.2 ≤ weight w q) :
    weight w (.obj ps) ≤ weight w v := by
  obtain ⟨p₀, hp₀⟩ := List.exists_mem_of_ne_nil ps hne
  obtain ⟨q₀, hq₀, -⟩ := h p₀ hp₀
  obtain ⟨ms, rfl, hm₀⟩ := get_mem hq₀
  have hsum : (ps.map fun m ↦ room w (.str m.1 :: .colon :: tokens m.2) + w .comma).sum ≤
      (ms.map fun m ↦ room w (.str m.1 :: .colon :: tokens m.2) + w .comma).sum := by
    refine sum_le_of_found hps fun p hp ↦ ?_
    obtain ⟨q, hq, hle⟩ := h p hp
    obtain ⟨ms', hms, hmem⟩ := get_mem hq
    cases hms
    refine ⟨(p.1, q), hmem, rfl, ?_⟩
    unfold weight at hle
    simp only [room_cons]
    omega
  have hps₀ : members ps ≠ [] := by simpa [members_eq] using hne
  have hms₀ : members ms ≠ [] := by simpa [members_eq] using List.ne_nil_of_mem hm₀
  have hps' := room_intercalate (w := w) hps₀
  have hms' := room_intercalate (w := w) hms₀
  rw [members_eq, List.map_map] at hps' hms'
  simp only [weight, tokens, members_eq, List.cons_append, room_cons, room_append] at hsum ⊢
  simp only [Function.comp_def, room_cons] at hps' hms' hsum
  omega

end Weight

end Json
