import Laps.Lib.Bytes

/-! The byte order of a machine: what its memory holds of an integer, and which integers look the
same in both orders. -/

namespace Wire

inductive HostOrder where
  | little
  | big
  deriving DecidableEq, Repr

/-- The `k` bytes of a number in memory. -/
def memBytes : HostOrder → ℕ → ℕ → List UInt8
  | .little => hostBytes
  | .big => netBytes

/-- The number in these bytes of the memory. -/
def memValue : HostOrder → List UInt8 → ℕ
  | .little => hostValue
  | .big => netValue

/-- The number has the same bytes in both orders. -/
def Symmetric (k v : ℕ) : Prop := hostBytes k v = netBytes k v

instance (k v : ℕ) : Decidable (Symmetric k v) := inferInstanceAs (Decidable (_ = _))

theorem reverse_memBytes_eq_netBytes_iff {order : HostOrder} {k v : ℕ} :
    (memBytes order k v).reverse = netBytes k v ↔ order = .little ∨ Symmetric k v := by
  cases order with
  | little => simp [memBytes, netBytes]
  | big =>
    have hreverse : (netBytes k v).reverse = hostBytes k v := by
      rw [netBytes, List.reverse_reverse]
    simp [memBytes, hreverse, Symmetric]

theorem memValue_netBytes_of_symmetric (order : HostOrder) {k v : ℕ} (h : v < 256 ^ k)
    (hsymmetric : Symmetric k v) : memValue order (netBytes k v) = v := by
  cases order with
  | little =>
    rw [← hsymmetric]
    exact hostValue_hostBytes h
  | big => exact netValue_netBytes h

theorem hostBytes_hostValue (bytes : List UInt8) :
    hostBytes bytes.length (hostValue bytes) = bytes := by
  induction bytes with
  | nil => rfl
  | cons b bytes ih =>
    have hb := UInt8.toNat_lt b
    have hdiv : (b.toNat + 256 * hostValue bytes) / 256 = hostValue bytes := by omega
    have hlow : UInt8.ofNat (b.toNat + 256 * hostValue bytes) = b := by
      apply UInt8.toNat_inj.mp
      rw [UInt8.toNat_ofNat']
      omega
    rw [hostValue, List.length_cons, hostBytes, hdiv, ih, hlow]

/-- A number of `k` bytes in the order of a machine. -/
def mem (order : HostOrder) (k : ℕ) : Reader ℕ := memValue order <$> take k

/-- The number with its bytes the other way round. -/
def swapBytes (k v : ℕ) : ℕ := netValue (hostBytes k v)

theorem swapBytes_of_symmetric {k v : ℕ} (h : v < 256 ^ k) (hsymmetric : Symmetric k v) :
    swapBytes k v = v := by
  rw [swapBytes, hsymmetric, netValue_netBytes h]

/-- A big machine reads the bytes that a little one reads, the other way round. -/
theorem mem_big (k : ℕ) : mem .big k = swapBytes k <$> host k := by
  funext bytes
  show (memValue .big <$> take k).run bytes = (swapBytes k <$> host k).run bytes
  rw [StateT.run_map, StateT.run_map, host, StateT.run_map]
  cases htake : (take k).run bytes with
  | none => rfl
  | some read =>
    obtain ⟨front, rest⟩ := read
    obtain ⟨-, hlength⟩ := run_take_eq_some.mp htake
    show some (netValue front, rest) = some (swapBytes k (hostValue front), rest)
    rw [swapBytes, ← hlength, hostBytes_hostValue]

end Wire
