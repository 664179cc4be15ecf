import Laps.Lib.Bytes

/-! Functions that walk over memory with a cursor and check nothing: which bytes they read, and that
they read like the readers that fail at the end of the bytes. -/

namespace Wire

variable {α β : Type}

/-- What a walk does: the ranges that it reads, each a place and a number of bytes, and the value
with the place that it comes to, unless it throws. -/
structure Walk (α : Type) where
  reads : List (ℕ × ℕ)
  result : Option (α × ℕ)

/-- A function of the memory and the place in it that it starts from. -/
def Walker (α : Type) := (ℕ → UInt8) → ℕ → Walk α

/-- The memory that holds the bytes, and something else past them. -/
def memory (bytes : List UInt8) (beyond : ℕ → UInt8) (i : ℕ) : UInt8 := bytes.getD i (beyond i)

/-- All bytes that are read are among the first `size`. -/
def Walk.Inside (w : Walk α) (size : ℕ) : Prop :=
  ∀ range ∈ w.reads, ∀ i, range.1 ≤ i → i < range.1 + range.2 → i < size

namespace Walker

/-- The walk of a function, and after it that of the next one. -/
def andThen (p : Walker α) (f : α → Walker β) : Walker β := fun mem pos =>
  match (p mem pos).result with
  | none => ⟨(p mem pos).reads, none⟩
  | some (a, pos') => ⟨(p mem pos).reads ++ (f a mem pos').reads, (f a mem pos').result⟩

instance : Monad Walker where
  pure a := fun _ pos => ⟨[], some (a, pos)⟩
  bind := andThen

/-- Reads `k` bytes. -/
def fetch (k : ℕ) : Walker (List UInt8) := fun mem pos =>
  ⟨[(pos, k)], some ((List.range k).map fun i => mem (pos + i), pos + k)⟩

/-- Looks at a byte. -/
def peek : Walker UInt8 := fun mem pos => ⟨[(pos, 1)], some (mem pos, pos)⟩

/-- The place of the cursor. -/
def here : Walker ℕ := fun _ pos => ⟨[], some (pos, pos)⟩

def throw : Walker α := fun _ _ => ⟨[], none⟩

def map (f : α → β) (p : Walker α) : Walker β := do
  let a ← p
  pure (f a)

def net (k : ℕ) : Walker ℕ := map netValue (fetch k)

def host (k : ℕ) : Walker ℕ := map hostValue (fetch k)

def byte : Walker UInt8 := map (fun bytes => bytes.headD 0) (fetch 1)

def u16 : Walker UInt16 := map UInt16.ofNat (net 2)

def u32 : Walker UInt32 := map UInt32.ofNat (net 4)

def u64 : Walker UInt64 := map UInt64.ofNat (net 8)

def varint : Walker ℕ := do
  let first ← peek
  let bytes ← fetch (varintSize first)
  pure (varintValue bytes)

def times (p : Walker α) : ℕ → Walker (List α)
  | 0 => pure []
  | k + 1 => do
    let a ← p
    let as ← times p k
    pure (a :: as)

/-- A loop that goes on while the cursor is before `size`; the number bounds its rounds. -/
def whileBefore (size : ℕ) (p : Walker α) : ℕ → Walker (List α)
  | 0 => pure []
  | fuel + 1 => do
    let pos ← here
    if pos < size then
      let a ← p
      let as ← whileBefore size p fuel
      pure (a :: as)
    else pure []

/-- A loop up to the end; every round of it moves the cursor. -/
def toEnd (size : ℕ) (p : Walker α) : Walker (List α) := do
  let pos ← here
  whileBefore size p (size - pos)

/-! ### Walks and readers -/

/-- The walk stays inside the bytes and comes to what the reader reads, or the reader fails and the
walk leaves the bytes. -/
def Follows (p : Walker α) (r : Reader α) (bytes : List UInt8) (beyond : ℕ → UInt8) (pos : ℕ) :
    Prop :=
  match r.run (bytes.drop pos) with
  | some (a, rest) => (p (memory bytes beyond) pos).Inside bytes.length ∧
      ∃ pos', pos' ≤ bytes.length ∧ rest = bytes.drop pos' ∧
        (p (memory bytes beyond) pos).result = some (a, pos')
  | none => ¬(p (memory bytes beyond) pos).Inside bytes.length

/-- A walk that is like a reader wherever it starts. -/
def Like (p : Walker α) (r : Reader α) (bytes : List UInt8) (beyond : ℕ → UInt8) : Prop :=
  ∀ pos, pos ≤ bytes.length → Follows p r bytes beyond pos

variable {p : Walker α} {r : Reader α} {f : α → Walker β} {g : α → Reader β}
variable {bytes : List UInt8} {beyond : ℕ → UInt8} {pos : ℕ}

theorem Follows.of_some {a : α} {pos' : ℕ} (hpos : pos' ≤ bytes.length)
    (hr : r.run (bytes.drop pos) = some (a, bytes.drop pos'))
    (hinside : (p (memory bytes beyond) pos).Inside bytes.length)
    (hresult : (p (memory bytes beyond) pos).result = some (a, pos')) :
    Follows p r bytes beyond pos := by
  unfold Follows
  rw [hr]
  exact ⟨hinside, pos', hpos, rfl, hresult⟩

theorem Follows.of_none (hr : r.run (bytes.drop pos) = none)
    (houtside : ¬(p (memory bytes beyond) pos).Inside bytes.length) :
    Follows p r bytes beyond pos := by
  unfold Follows
  rw [hr]
  exact houtside

theorem Follows.congr {p' : Walker α} {r' : Reader α} (h : Follows p r bytes beyond pos)
    (hp : p' (memory bytes beyond) pos = p (memory bytes beyond) pos)
    (hr : r'.run (bytes.drop pos) = r.run (bytes.drop pos)) : Follows p' r' bytes beyond pos := by
  unfold Follows at h ⊢
  rw [hr, hp]
  exact h

/-- The walk stays inside exactly where the reader reads. -/
theorem Follows.inside_iff (h : Follows p r bytes beyond pos) :
    (p (memory bytes beyond) pos).Inside bytes.length ↔ (r.run (bytes.drop pos)).isSome = true := by
  unfold Follows at h
  cases hr : r.run (bytes.drop pos) with
  | none =>
    rw [hr] at h
    simpa using h
  | some out =>
    rw [hr] at h
    simpa using h.1

/-- The first of two walks stays inside, and so does the second from where the first comes to. -/
theorem inside_bind {mem : ℕ → UInt8} {size : ℕ} :
    ((p >>= f) mem pos).Inside size ↔ (p mem pos).Inside size ∧
      ∀ a pos', (p mem pos).result = some (a, pos') → (f a mem pos').Inside size := by
  show (andThen p f mem pos).Inside size ↔ _
  unfold andThen
  cases hresult : (p mem pos).result with
  | none =>
    refine (and_iff_left ?_).symm
    rintro a pos' ⟨⟩
  | some out =>
    obtain ⟨a, pos'⟩ := out
    constructor
    · intro h
      refine ⟨fun range hrange => h range (List.mem_append_left _ hrange), ?_⟩
      rintro _ _ ⟨⟩ range hrange
      exact h range (List.mem_append_right _ hrange)
    · rintro ⟨h, hnext⟩ range hrange
      obtain hrange | hrange := List.mem_append.mp hrange
      · exact h range hrange
      · exact hnext a pos' rfl range hrange

theorem result_bind {mem : ℕ → UInt8} {a : α} {pos' : ℕ} (h : (p mem pos).result = some (a, pos')) :
    ((p >>= f) mem pos).result = (f a mem pos').result := by
  show (andThen p f mem pos).result = _
  rw [andThen, h]

theorem run_bind {rest : List UInt8} {a : α} (h : r.run bytes = some (a, rest)) :
    (r >>= g).run bytes = (g a).run rest := by
  rw [StateT.run_bind, h]
  rfl

theorem run_here (f : ℕ → Walker β) (mem : ℕ → UInt8) : (here >>= f) mem pos = f pos mem pos := rfl

theorem run_byte (f : UInt8 → Walker β) (mem : ℕ → UInt8) :
    (byte >>= f) mem pos =
      ⟨(pos, 1) :: (f (mem pos) mem (pos + 1)).reads, (f (mem pos) mem (pos + 1)).result⟩ := rfl

theorem run_map (f : α → β) (p : Walker α) (mem : ℕ → UInt8) (pos : ℕ) :
    map f p mem pos =
      ⟨(p mem pos).reads, (p mem pos).result.map fun out => (f out.1, out.2)⟩ := by
  show andThen p _ mem pos = _
  unfold andThen
  cases (p mem pos).result with
  | none => rfl
  | some out =>
    show (⟨(p mem pos).reads ++ [], _⟩ : Walk β) = _
    rw [List.append_nil]
    rfl

theorem Like.pure (a : α) : Like (Pure.pure a) (Pure.pure a) bytes beyond := by
  intro pos hpos
  exact .of_some hpos rfl (fun _ h => absurd h List.not_mem_nil) rfl

theorem Like.bind (h : Like p r bytes beyond) (h' : ∀ a, Like (f a) (g a) bytes beyond) :
    Like (p >>= f) (r >>= g) bytes beyond := by
  intro pos hpos
  have hfirst := h pos hpos
  unfold Follows at hfirst
  cases hr : r.run (bytes.drop pos) with
  | none =>
    rw [hr] at hfirst
    refine .of_none (by rw [StateT.run_bind, hr]; rfl) fun hinside => ?_
    exact hfirst (inside_bind.mp hinside).1
  | some out =>
    obtain ⟨a, rest⟩ := out
    rw [hr] at hfirst
    obtain ⟨hinside, pos', hpos', rfl, hresult⟩ := hfirst
    have hwalk : ((p >>= f) (memory bytes beyond) pos).result =
        (f a (memory bytes beyond) pos').result := result_bind hresult
    have hnext := h' a pos' hpos'
    unfold Follows at hnext ⊢
    rw [run_bind hr]
    cases hg : (g a).run (bytes.drop pos') with
    | none =>
      rw [hg] at hnext
      exact fun hin => hnext ((inside_bind.mp hin).2 a pos' hresult)
    | some out =>
      rw [hg] at hnext
      obtain ⟨hin, pos'', hpos'', hrest, hres⟩ := hnext
      refine ⟨inside_bind.mpr ⟨hinside, fun a' pos₂ h => ?_⟩, pos'', hpos'', hrest, hwalk.trans hres⟩
      cases hresult.symm.trans h
      exact hin

/-- A field of a fixed size, and a walk that does not depend on its value. -/
theorem Like.inside_bind {k : ℕ} (h : Like p r bytes beyond) (htakes : Takes r (·.length = k))
    (hpos : pos ≤ bytes.length) {next : Prop}
    (hnext : ∀ a, pos + k ≤ bytes.length →
      ((f a (memory bytes beyond) (pos + k)).Inside bytes.length ↔ next)) :
    ((p >>= f) (memory bytes beyond) pos).Inside bytes.length ↔
      pos + k ≤ bytes.length ∧ next := by
  have hfirst := h pos hpos
  unfold Follows at hfirst
  cases hr : r.run (bytes.drop pos) with
  | none =>
    rw [hr] at hfirst
    refine iff_of_false (fun hin => hfirst (Walker.inside_bind.mp hin).1) fun hin => ?_
    have hlen : k ≤ (bytes.drop pos).length := by
      rw [List.length_drop]
      omega
    obtain ⟨a, ha⟩ := (htakes (bytes.drop pos) ((bytes.drop pos).drop k)).mpr
      ⟨_, (List.take_append_drop k _).symm, List.length_take_of_le hlen⟩
    rw [hr] at ha
    cases ha
  | some out =>
    obtain ⟨a, rest⟩ := out
    rw [hr] at hfirst
    obtain ⟨hinside, pos', hpos', rfl, hresult⟩ := hfirst
    obtain ⟨front, hfront, hk⟩ := (htakes _ _).mp ⟨a, hr⟩
    have hlen := congrArg List.length hfront
    rw [List.length_append, List.length_drop, List.length_drop, hk] at hlen
    obtain rfl : pos' = pos + k := by omega
    rw [Walker.inside_bind, ← hnext a hpos']
    constructor
    · exact fun hin => ⟨hpos', hin.2 a _ hresult⟩
    · rintro ⟨-, hin⟩
      refine ⟨hinside, fun a' pos₂ h => ?_⟩
      cases hresult.symm.trans h
      exact hin

theorem Like.map (h : Like p r bytes beyond) (f : α → β) :
    Like (Walker.map f p) (f <$> r) bytes beyond := by
  rw [map_eq_pure_bind]
  exact h.bind fun a => .pure (f a)

theorem inside_fetch (k : ℕ) (mem : ℕ → UInt8) {size : ℕ} (hpos : pos ≤ size) :
    (fetch k mem pos).Inside size ↔ k ≤ size - pos := by
  constructor
  · intro h
    by_contra hlong
    have hlast := h (pos, k) List.mem_cons_self (pos + k - 1) (by dsimp only; omega)
      (by dsimp only; omega)
    omega
  · intro hk range hrange i hlow hhigh
    obtain rfl := List.mem_singleton.mp hrange
    dsimp only at hlow hhigh
    omega

theorem memory_of_lt {i : ℕ} (h : i < bytes.length) : memory bytes beyond i = bytes[i] := by
  rw [memory, List.getD_eq_getElem?_getD, List.getElem?_eq_getElem h, Option.getD_some]

theorem map_memory (beyond : ℕ → UInt8) {k : ℕ} (h : pos + k ≤ bytes.length) :
    ((List.range k).map fun i => memory bytes beyond (pos + i)) = (bytes.drop pos).take k := by
  apply List.ext_getElem
  · rw [List.length_map, List.length_range, List.length_take, List.length_drop]
    omega
  · intro i hi _
    rw [List.length_map, List.length_range] at hi
    rw [List.getElem_map, List.getElem_range, memory_of_lt (by omega), List.getElem_take,
      List.getElem_drop]

theorem like_fetch (k : ℕ) : Like (fetch k) (take k) bytes beyond := by
  intro pos hpos
  have hinside := inside_fetch k (memory bytes beyond) hpos
  have hlength : (bytes.drop pos).length = bytes.length - pos := List.length_drop
  by_cases hk : k ≤ bytes.length - pos
  · have hend : pos + k ≤ bytes.length := by omega
    refine .of_some hend ?_ (hinside.mpr hk) (congrArg some (Prod.ext (map_memory beyond hend) rfl))
    show (if k ≤ (bytes.drop pos).length then _ else _) = _
    rw [if_pos (by omega), List.drop_drop]
  · exact .of_none (if_neg (by omega)) fun h => hk (hinside.mp h)

/-- The reader that looks at a byte. -/
def peekReader : Reader UInt8 := fun
  | [] => none
  | b :: bytes => some (b, b :: bytes)

theorem like_peek : Like peek peekReader bytes beyond := by
  intro pos hpos
  cases hdrop : bytes.drop pos with
  | nil =>
    refine .of_none (by rw [hdrop]; rfl) fun h => ?_
    have hlast := h (pos, 1) List.mem_cons_self pos (Nat.le_refl _) (Nat.lt_succ_self _)
    rw [List.drop_eq_nil_iff] at hdrop
    omega
  | cons b rest =>
    have hlt : pos < bytes.length := by
      by_contra hle
      rw [List.drop_eq_nil_iff.mpr (by omega)] at hdrop
      cases hdrop
    have hb : bytes[pos] = b := by
      have hhead := List.drop_eq_getElem_cons hlt
      rw [hdrop] at hhead
      exact (List.cons.inj hhead).1.symm
    have hread : peekReader.run (bytes.drop pos) = some (b, bytes.drop pos) := by
      rw [hdrop]
      rfl
    refine .of_some hpos hread ?_ ?_
    · intro range hrange i hlow hhigh
      obtain rfl := List.mem_singleton.mp hrange
      dsimp only at hlow hhigh
      omega
    · show some (memory bytes beyond pos, pos) = some (b, pos)
      rw [memory_of_lt hlt, hb]

theorem like_byte : Like byte Wire.byte bytes beyond := by
  have hreader : Wire.byte = (fun bytes => bytes.headD 0) <$> take 1 := by
    funext bytes
    cases bytes with
    | nil => rfl
    | cons b bytes =>
      show _ = ((fun bytes => bytes.headD 0) <$> take 1).run (b :: bytes)
      rw [StateT.run_map]
      rfl
  rw [hreader]
  exact (like_fetch 1).map _

theorem like_net (k : ℕ) : Like (net k) (Wire.net k) bytes beyond := (like_fetch k).map _

theorem like_host (k : ℕ) : Like (host k) (Wire.host k) bytes beyond := (like_fetch k).map _

theorem like_u16 : Like u16 Wire.u16 bytes beyond := (like_net 2).map _

theorem like_u32 : Like u32 Wire.u32 bytes beyond := (like_net 4).map _

theorem like_u64 : Like u64 Wire.u64 bytes beyond := (like_net 8).map _

theorem like_varint : Like varint Wire.varint bytes beyond := by
  have hreader : Wire.varint = (do
      let first ← peekReader
      varintValue <$> take (varintSize first)) := by
    funext bytes
    cases bytes <;> rfl
  rw [hreader]
  refine like_peek.bind fun first => ?_
  exact (like_fetch _).map _

theorem like_times (h : Like p r bytes beyond) (k : ℕ) :
    Like (times p k) (Wire.times r k) bytes beyond := by
  induction k with
  | zero => exact .pure []
  | succ k ih => exact h.bind fun a => ih.bind fun as => .pure (a :: as)

theorem like_whileBefore (h : Like p r bytes beyond) (fuel : ℕ) :
    Like (whileBefore bytes.length p fuel) (Wire.untilEnd r fuel) bytes beyond := by
  induction fuel with
  | zero => exact .pure []
  | succ fuel ih =>
    intro pos hpos
    have hround : Like (do
        let a ← p
        let as ← whileBefore bytes.length p fuel
        pure (a :: as)) (do
        let a ← r
        let as ← Wire.untilEnd r fuel
        pure (a :: as)) bytes beyond := h.bind fun a => ih.bind fun as => .pure (a :: as)
    by_cases hlt : pos < bytes.length
    · refine (hround pos hpos).congr ?_ ?_
      · rw [whileBefore, run_here, if_pos hlt]
      · have hempty : (bytes.drop pos).isEmpty = false := by
          rw [← Bool.not_eq_true, List.isEmpty_iff, List.drop_eq_nil_iff]
          omega
        show (if (bytes.drop pos).isEmpty then _ else _) = _
        rw [if_neg (by simp [hempty])]
        rfl
    · refine Follows.congr (p := pure []) (r := pure []) (Like.pure [] pos hpos) ?_ ?_
      · rw [whileBefore, run_here, if_neg hlt]
      · have hempty : (bytes.drop pos).isEmpty = true := by
          rw [List.isEmpty_iff, List.drop_eq_nil_iff]
          omega
        show (if (bytes.drop pos).isEmpty then _ else _) = _
        rw [if_pos hempty]
        rfl

theorem like_toEnd (h : Like p r bytes beyond) :
    Like (toEnd bytes.length p) (Wire.toEnd r) bytes beyond := by
  intro pos hpos
  refine (like_whileBefore h (bytes.length - pos) pos hpos).congr ?_ ?_
  · rw [toEnd, run_here]
  · show Wire.untilEnd r (bytes.drop pos).length (bytes.drop pos) = _
    rw [List.length_drop]
    rfl

/-! ### Walks that throw -/

/-- A walk that stays inside comes to what the reader reads, and throws where the reader fails. -/
def Agrees (p : Walker α) (r : Reader α) (bytes : List UInt8) (beyond : ℕ → UInt8) (pos : ℕ) :
    Prop :=
  (p (memory bytes beyond) pos).Inside bytes.length →
    (p (memory bytes beyond) pos).result.map Prod.fst = (r.run (bytes.drop pos)).map Prod.fst

theorem Follows.agrees (h : Follows p r bytes beyond pos) : Agrees p r bytes beyond pos := by
  intro hinside
  unfold Follows at h
  cases hr : r.run (bytes.drop pos) with
  | none =>
    rw [hr] at h
    exact absurd hinside h
  | some out =>
    rw [hr] at h
    obtain ⟨-, pos', -, -, hresult⟩ := h
    rw [hresult]
    rfl

theorem Agrees.bind_pure (h : Agrees p r bytes beyond pos) (f : α → β) :
    Agrees (p >>= fun a => pure (f a)) (r >>= fun a => pure (f a)) bytes beyond pos := by
  intro hinside
  have hboth := h (inside_bind.mp hinside).1
  have hwalk := congrArg Walk.result (run_map f p (memory bytes beyond) pos)
  show (map f p (memory bytes beyond) pos).result.map Prod.fst = _
  rw [hwalk, StateT.run_bind]
  revert hboth
  cases (p (memory bytes beyond) pos).result with
  | none =>
    cases r.run (bytes.drop pos) with
    | none => exact fun _ => rfl
    | some out => exact nofun
  | some out =>
    cases r.run (bytes.drop pos) with
    | none => exact nofun
    | some out' =>
      intro hboth
      exact congrArg (Option.map f) hboth

/-- Fields that are not checked, and after them a walk that may throw. -/
theorem Like.bind_agrees (h : Like p r bytes beyond) (hpos : pos ≤ bytes.length)
    (hnext : ∀ a pos', pos' ≤ bytes.length → Agrees (f a) (g a) bytes beyond pos') :
    Agrees (p >>= f) (r >>= g) bytes beyond pos := by
  intro hinside
  obtain ⟨hfirst, hlater⟩ := Walker.inside_bind.mp hinside
  have hfollows := h pos hpos
  unfold Follows at hfollows
  cases hr : r.run (bytes.drop pos) with
  | none =>
    rw [hr] at hfollows
    exact absurd hfirst hfollows
  | some out =>
    obtain ⟨a, rest⟩ := out
    rw [hr] at hfollows
    obtain ⟨-, pos', hpos', rfl, hresult⟩ := hfollows
    rw [result_bind hresult, run_bind hr]
    exact hnext a pos' hpos' (hlater a pos' hresult)

end Walker

end Wire
