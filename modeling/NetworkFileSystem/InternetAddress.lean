import NetworkFileSystem.Common

/-!
# Addresses and numbers as text

`inet_pton`, `inet_ntop`, `htons` and `atoi`, which turn the strings and numbers that the programs
exchange into the addresses that they bind and connect to.
-/

namespace NetworkFileSystem

/-- The bytes of a literal. -/
def text (s : String) : CString := s.toList.flatMap String.utf8EncodeChar

/-- What `%d` prints. -/
def decimal (n : Int32) : CString := text (toString n.toInt)

/-- An IPv4 address, in the order in which it is written. -/
abbrev InAddr := List.Vector UInt8 4

abbrev InPort := UInt16

/-- The port of an `int`: its two low bytes. -/
def htons (port : Int32) : InPort := port.toUInt32.toUInt16

def digits (n : ℕ) : CString := (Nat.toDigits 10 n).map fun c => UInt8.ofNat c.toNat

/-- `inet_ntop` writes the octets in decimal with dots between them. -/
def inetNtop (addr : InAddr) : CString :=
  [46].intercalate (addr.toList.map fun octet => digits octet.toNat)

/-- One more digit of an octet; an octet has no leading zero and is at most 255. -/
def octetStep (octet : Option UInt8) (ch : UInt8) : Option (Option UInt8) :=
  match octet with
  | none => some (some (ch - 48))
  | some v =>
    if v = 0 then none
    else if 255 < 10 * v.toNat + (ch - 48).toNat then none
    else some (some (UInt8.ofNat (10 * v.toNat + (ch - 48).toNat)))

/-- One character of `inet_pton`: the octets that are finished and the one that is being read. -/
def inetPtonStep (st : List UInt8 × Option UInt8) (ch : UInt8) :
    Option (List UInt8 × Option UInt8) :=
  if 48 ≤ ch ∧ ch ≤ 57 then (octetStep st.2 ch).map (st.1, ·)
  else if ch = 46 then
    match st.2 with
    | some v => if st.1.length = 3 then none else some (st.1 ++ [v], none)
    | none => none
  else none

/-- Four octets with dots between them. -/
def inetPton (s : CString) : Option InAddr :=
  match s.foldlM inetPtonStep ([], none) with
  | some (octets, some v) =>
    if h : octets.length = 3 then some ⟨octets ++ [v], by simp [h]⟩ else none
  | _ => none

/-- White space, a sign and digits; `strtol` stays within a `long`. -/
def atoi (s : CString) : Int32 :=
  let s := s.dropWhile fun ch => ch = 32 ∨ (9 ≤ ch ∧ ch ≤ 13)
  let negative := s.head? = some 45
  let s := if s.head? = some 45 ∨ s.head? = some 43 then s.tail else s
  let n := (s.takeWhile fun ch => 48 ≤ ch ∧ ch ≤ 57).foldl
    (fun (n : ℕ) ch => 10 * n + (ch.toNat - 48)) 0
  Int32.ofInt (max (-2 ^ 63) (min (if negative then -n else n) (2 ^ 63 - 1)))

example : atoi [32, 45, 52, 50] = -42 := by decide

theorem digits_octet (v : UInt8) :
    (∀ ch ∈ digits v.toNat, 48 ≤ ch ∧ ch ≤ 57) ∧
      (digits v.toNat).foldlM octetStep none = some (some v) ∧
      (digits v.toNat).length ≤ 3 := by
  have hall : ∀ n < 256, (digits n).all (fun ch => 48 ≤ ch ∧ ch ≤ 57) ∧
      (digits n).foldlM octetStep none = some (some (UInt8.ofNat n)) ∧
      (digits n).length ≤ 3 := by decide +kernel
  obtain ⟨hdigits, hfold, hlength⟩ := hall v.toNat v.toNat_lt
  rw [UInt8.ofNat_toNat] at hfold
  exact ⟨fun ch hch => of_decide_eq_true (List.all_eq_true.mp hdigits ch hch), hfold, hlength⟩

theorem foldlM_inetPtonStep {s : CString} (hs : ∀ ch ∈ s, 48 ≤ ch ∧ ch ≤ 57)
    (octets : List UInt8) (octet : Option UInt8) :
    s.foldlM inetPtonStep (octets, octet) = (s.foldlM octetStep octet).map (octets, ·) := by
  induction s generalizing octet with
  | nil => rfl
  | cons ch s ih =>
      have hch := hs ch List.mem_cons_self
      have hrest : ∀ ch ∈ s, 48 ≤ ch ∧ ch ≤ 57 := fun c hc => hs c (List.mem_cons_of_mem _ hc)
      rw [List.foldlM_cons, List.foldlM_cons, inetPtonStep, if_pos hch]
      cases octetStep octet ch with
      | none => rfl
      | some octet' => exact ih hrest octet'

/-- An octet that `inet_ntop` wrote is read back. -/
theorem foldlM_digits (octets : List UInt8) (v : UInt8) (rest : CString) :
    (digits v.toNat ++ rest).foldlM inetPtonStep (octets, none) =
      rest.foldlM inetPtonStep (octets, some v) := by
  obtain ⟨hdigits, hfold, -⟩ := digits_octet v
  rw [List.foldlM_append, foldlM_inetPtonStep hdigits, hfold]
  rfl

theorem foldlM_dot {octets : List UInt8} (v : UInt8) (rest : CString) (h : octets.length ≠ 3) :
    (46 :: rest).foldlM inetPtonStep (octets, some v) =
      rest.foldlM inetPtonStep (octets ++ [v], none) := by
  rw [List.foldlM_cons, inetPtonStep, if_neg (by decide), if_pos rfl]
  simp [h]

theorem inetNtop_eq (a b c d : UInt8) :
    inetNtop ⟨[a, b, c, d], rfl⟩ = digits a.toNat ++ 46 :: (digits b.toNat ++
      46 :: (digits c.toNat ++ 46 :: digits d.toNat)) := by
  simp [inetNtop, List.intercalate, List.intersperse]

/-- `inet_pton` reads back what `inet_ntop` wrote. -/
theorem inetPton_inetNtop (addr : InAddr) : inetPton (inetNtop addr) = some addr := by
  obtain ⟨octets, hlen⟩ := addr
  obtain ⟨a, b, c, d, rfl⟩ := List.length_eq_four.mp hlen
  have hlast := foldlM_digits [a, b, c] d []
  rw [List.append_nil, List.foldlM_nil] at hlast
  have hfold : (inetNtop ⟨[a, b, c, d], rfl⟩).foldlM inetPtonStep ([], none) =
      some ([a, b, c], some d) := by
    rw [inetNtop_eq, foldlM_digits, foldlM_dot _ _ (by simp), foldlM_digits,
      foldlM_dot _ _ (by simp), foldlM_digits, foldlM_dot _ _ (by simp)]
    exact hlast
  rw [inetPton, hfold]
  rfl

/-- The text of an address is a string that fits `INET_ADDRSTRLEN`. -/
theorem inetNtop_fits (addr : InAddr) :
    0 ∉ inetNtop addr ∧ (inetNtop addr).length < inetAddrStrLen := by
  obtain ⟨octets, hlen⟩ := addr
  obtain ⟨a, b, c, d, rfl⟩ := List.length_eq_four.mp hlen
  have hzero : ∀ v : UInt8, 0 ∉ digits v.toNat := fun v hmem =>
    absurd ((digits_octet v).1 0 hmem).1 (by decide)
  have ha := (digits_octet a).2.2
  have hb := (digits_octet b).2.2
  have hc := (digits_octet c).2.2
  have hd := (digits_octet d).2.2
  have hmax : inetAddrStrLen = 16 := rfl
  rw [inetNtop_eq]
  constructor
  · simp [hzero]
  · simp only [List.length_append, List.length_cons]
    omega

end NetworkFileSystem
