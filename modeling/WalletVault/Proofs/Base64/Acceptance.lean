import WalletVault.Proofs.Base64
import WalletVault.Proofs.Digits

/-!
# Which base-64 texts are read

A text is read when it is made of letters with padding behind them, and the
padding fits the count of the letters. The six-bit values of the letters are the
digits of a number, and its leading bits are the bytes; those that fill no byte
are dropped, be they zero or not.
-/

namespace WalletVault
namespace Base64

/-!
# Spellings
-/

/-- The padding that fits a count of letters: two or three letters in the last group are made up to
four, and behind full groups any padding is ignored. -/
def Fits (letters pads : Nat) : Prop :=
  letters % 4 = 0 ∨ 2 <= letters % 4 ∧ letters % 4 + pads = 4

/-- A text made of the letters of some values and of padding behind them that does not begin with
padding. -/
structure Spelling (values : List Nat) (pads : Nat) (text : String) : Prop where
  toList_eq : text.toList = values.map letter ++ List.replicate pads '='
  lt : forall n, n ∈ values -> n < 64
  fits : Fits values.length pads
  leading : values = [] -> pads = 0

/-- Bytes that are the leading bits of the number whose digits to base 64 are the values. -/
structure Holds (values : List Nat) (data : Bytes) : Prop where
  length_eq : data.length = 6 * values.length / 8
  toNatBE_eq :
    Bytes.toNatBE data = Nat.ofDigits 64 values.reverse / 2 ^ (6 * values.length % 8)

def Spells (text : String) (data : Bytes) : Prop :=
  exists values pads, Spelling values pads text ∧ Holds values data

theorem Holds.unique {values : List Nat} {data data' : Bytes} (h : Holds values data)
    (h' : Holds values data') : data = data' := by
  rw [← Bytes.ofNatBE_toNatBE data, ← Bytes.ofNatBE_toNatBE data', h.length_eq, h'.length_eq,
    h.toNatBE_eq, h'.toNatBE_eq]

/-!
# Bytes of six-bit values
-/

/-- Three bytes in front are 24 leading bits, whatever number of bits is dropped at the end. -/
theorem Holds.cons_group {a b c d : Nat} {rest : List Nat} {data : Bytes} (ha : a < 64)
    (hb : b < 64) (hc : c < 64) (hd : d < 64) (h : Holds rest data) :
    Holds (a :: b :: c :: d :: rest)
      (let n := 262144 * a + 4096 * b + 64 * c + d
      UInt8.ofNat (n / 65536) :: UInt8.ofNat (n / 256 % 256) :: UInt8.ofNat (n % 256) :: data) := by
  have hlength := h.length_eq
  have hcut : 6 * (rest.length + 1 + 1 + 1 + 1) % 8 = 6 * rest.length % 8 := by omega
  have hbits : 64 ^ rest.length = 2 ^ (6 * rest.length % 8) * 256 ^ data.length := by
    rw [show 64 = 2 ^ 6 by rfl, show 256 = 2 ^ 8 by rfl, ← Nat.pow_mul, ← Nat.pow_mul,
      ← Nat.pow_add, hlength]
    congr 1
    omega
  generalize hn : 262144 * a + 4096 * b + 64 * c + d = n
  have hfirst : n / 65536 < 256 := by omega
  have hgroup : Nat.ofDigits 64 (a :: b :: c :: d :: rest).reverse =
      2 ^ (6 * rest.length % 8) * (256 ^ data.length * n) + Nat.ofDigits 64 rest.reverse := by
    simp only [Nat.ofDigits_reverse_cons, List.length_cons, Nat.pow_succ]
    rw [← Nat.mul_assoc, ← hbits, ← hn]
    ring
  have hbytes : 65536 * (n / 65536) + 256 * (n / 256 % 256) + n % 256 = n := by omega
  constructor
  · simp only [List.length_cons, hlength]
    omega
  · rw [hgroup, List.length_cons, List.length_cons, List.length_cons, List.length_cons, hcut,
      Nat.mul_add_div (Nat.two_pow_pos _), ← h.toNatBE_eq]
    simp only [Bytes.toNatBE_cons, List.length_cons, UInt8.toNat_ofNat', Nat.pow_succ]
    rw [Nat.mod_eq_of_lt hfirst, Nat.mod_mod, Nat.mod_eq_of_lt (Nat.mod_lt n (by decide))]
    conv_rhs => rw [← hbytes]
    ring

theorem holds_join (values : List Nat) (h : forall n, n ∈ values -> n < 64) :
    Holds values (join values) := by
  match values, h with
  | [], _ =>
      exact ⟨rfl, rfl⟩
  | [a], h =>
      have ha := h a (by simp)
      refine ⟨by simp [join], ?_⟩
      simp [join, Bytes.toNatBE, Nat.div_eq_of_lt ha]
  | [a, b], h =>
      have ha := h a (by simp)
      have hb := h b (by simp)
      refine ⟨by simp [join], ?_⟩
      simp [join, Bytes.toNatBE, Nat.ofDigits_cons]
      omega
  | [a, b, c], h =>
      have ha := h a (by simp)
      have hb := h b (by simp)
      have hc := h c (by simp)
      refine ⟨by simp [join], ?_⟩
      simp [join, Bytes.toNatBE, Nat.ofDigits_cons]
      omega
  | a :: b :: c :: d :: rest, h =>
      simp only [List.forall_mem_cons] at h
      rcases h with ⟨ha, hb, hc, hd, hrest⟩
      exact Holds.cons_group ha hb hc hd (holds_join rest hrest)

/-!
# Reading
-/

theorem value?_eq_some {c : Char} {n : Nat} (h : value? c = some n) : c = letter n ∧ n < 64 := by
  have hsame {m : Nat} (hm : m = c.toNat) : c = Char.ofNat m := by
    rw [hm, Char.ofNat_toNat]
  by_cases hupper : 65 <= c.toNat ∧ c.toNat <= 90
  · simp only [value?, if_pos hupper, Option.some_inj] at h
    rw [letter, if_pos (by omega)]
    exact ⟨hsame (by omega), by omega⟩
  by_cases hlower : 97 <= c.toNat ∧ c.toNat <= 122
  · simp only [value?, if_neg hupper, if_pos hlower, Option.some_inj] at h
    rw [letter, if_neg (by omega), if_pos (by omega)]
    exact ⟨hsame (by omega), by omega⟩
  by_cases hdigit : 48 <= c.toNat ∧ c.toNat <= 57
  · simp only [value?, if_neg hupper, if_neg hlower, if_pos hdigit, Option.some_inj] at h
    rw [letter, if_neg (by omega), if_neg (by omega), if_pos (by omega)]
    exact ⟨hsame (by omega), by omega⟩
  by_cases hplus : c = '+'
  · rw [hplus] at h
    cases h
    exact ⟨hplus, by decide⟩
  by_cases hslash : c = '/'
  · rw [hslash] at h
    cases h
    exact ⟨hslash, by decide⟩
  · simp only [value?, if_neg hupper, if_neg hlower, if_neg hdigit, if_neg hplus,
      if_neg hslash] at h
    cases h

theorem scan_nil_eq_ok {seen result : List Nat} {pads : Nat} {padded : Bool} :
    scan seen pads padded [] = .ok result <-> result = seen.reverse ∧ seen.length % 4 = 0 := by
  rw [scan]
  split
  next hzero =>
    rw [Except.ok.injEq, eq_comm]
    exact (and_iff_left hzero).symm
  next hone =>
    rw [hone]
    simp
  next hzero _ =>
    simp [imp_false.mp hzero]

/-- Only padding follows padding, as much as the last group has room for. -/
theorem scan_padded_eq_ok {seen result : List Nat} {pads : Nat} {chars : List Char}
    (hroom : seen.length % 4 + pads < 4) :
    scan seen pads true chars = .ok result <->
      result = seen.reverse ∧ (forall c, c ∈ chars -> c = '=') ∧
        Fits seen.length (pads + chars.length) := by
  induction chars generalizing pads with
  | nil =>
      have hfull : ¬ seen.length % 4 + pads = 4 := by omega
      simp [scan_nil_eq_ok, Fits, hfull]
  | cons c rest ih =>
      rw [scan, List.forall_mem_cons, List.length_cons, Fits]
      by_cases hc : c = '='
      · rw [if_pos hc]
        by_cases hsmall : seen.length % 4 < 2
        · rw [if_pos hsmall, ih hroom, Fits]
          simp [hc, Nat.not_le.mpr hsmall]
        · rw [if_neg hsmall]
          by_cases hmore : seen.length % 4 + (pads + 1) < 4
          · rw [if_pos hmore, ih hmore, Fits, Nat.add_assoc, Nat.add_comm 1]
            simp [hc]
          · have hlast : seen.length % 4 + (pads + 1) = 4 := by omega
            rw [if_neg hmore]
            cases rest with
            | nil =>
                simp [hc, eq_comm, Nat.not_lt.mp hsmall, hlast]
            | cons d rest =>
                have hzero : ¬ seen.length % 4 = 0 := by omega
                have hover : ¬ seen.length % 4 + (pads + (rest.length + 1 + 1)) = 4 := by omega
                simp [hzero, hover]
      · cases hvalue : value? c <;> simp [hc]

theorem scan_pad (seen : List Nat) (pads : Nat) (padded : Bool) (rest : List Char) :
    scan seen pads padded ('=' :: rest) = scan seen pads true ('=' :: rest) := by
  rw [scan, scan]
  rfl

theorem scan_replicate_eq_ok {seen result : List Nat} {pads : Nat} :
    scan seen 0 false (List.replicate pads '=') = .ok result <->
      result = seen.reverse ∧ Fits seen.length pads := by
  have hroom : seen.length % 4 + 0 < 4 := Nat.mod_lt _ (by decide)
  cases pads with
  | zero =>
      have hfull : ¬ seen.length % 4 = 4 := by omega
      rw [List.replicate_zero, scan_nil_eq_ok, Fits]
      simp [hfull]
  | succ pads =>
      have hpads (c : Char) (hc : c ∈ List.replicate (pads + 1) '=') : c = '=' :=
        List.eq_of_mem_replicate hc
      rw [List.replicate_succ, scan_pad, ← List.replicate_succ, scan_padded_eq_ok hroom,
        List.length_replicate, Nat.zero_add, and_iff_right hpads]

theorem scan_eq_ok {seen result : List Nat} {chars : List Char} :
    scan seen 0 false chars = .ok result <->
      exists values pads, chars = values.map letter ++ List.replicate pads '=' ∧
        (forall n, n ∈ values -> n < 64) ∧ Fits (seen.length + values.length) pads ∧
        result = seen.reverse ++ values := by
  constructor
  · intro h
    induction chars generalizing seen with
    | nil =>
        rcases scan_nil_eq_ok.mp h with ⟨hresult, hzero⟩
        exact ⟨[], 0, rfl, List.forall_mem_nil _, Or.inl hzero, by simp [hresult]⟩
    | cons c rest ih =>
        by_cases hc : c = '='
        · have hroom : seen.length % 4 + 0 < 4 := Nat.mod_lt _ (by decide)
          rw [hc, scan_pad, scan_padded_eq_ok hroom] at h
          rcases h with ⟨hresult, hpads, hfits⟩
          refine ⟨[], (c :: rest).length, ?_, List.forall_mem_nil _, ?_, by simp [hresult]⟩
          · rw [hc]
            exact List.eq_replicate_iff.mpr ⟨rfl, hpads⟩
          · rwa [Nat.zero_add] at hfits
        · rw [scan, if_neg hc] at h
          cases hvalue : value? c with
          | none =>
              rw [hvalue] at h
              cases h
          | some n =>
              rw [hvalue] at h
              rcases value?_eq_some hvalue with ⟨hletter, hn⟩
              rcases ih h with ⟨values, pads, hrest, hvalues, hfits, hresult⟩
              refine ⟨n :: values, pads, ?_, ?_, ?_, ?_⟩
              · rw [hletter, hrest, List.map_cons, List.cons_append]
              · exact List.forall_mem_cons.mpr ⟨hn, hvalues⟩
              · rwa [List.length_cons, Nat.add_assoc, Nat.add_comm 1] at hfits
              · rw [hresult, List.reverse_cons, List.append_assoc, List.singleton_append]
  · intro h
    rcases h with ⟨values, pads, hchars, hvalues, hfits, hresult⟩
    rw [hchars, scan_letters hvalues, scan_replicate_eq_ok, List.reverse_append,
      List.reverse_reverse, List.length_append, List.length_reverse, Nat.add_comm]
    exact ⟨hresult, hfits⟩

theorem Spelling.ascii {values : List Nat} {pads : Nat} {text : String}
    (h : Spelling values pads text) : text.toList.any (fun c => 128 <= c.toNat) = false := by
  rw [List.any_eq_false]
  intro c hc
  rw [decide_eq_true_eq, Nat.not_le]
  rw [h.toList_eq] at hc
  rcases List.mem_append.mp hc with hletter | hpad
  · rcases List.mem_map.mp hletter with ⟨n, hn, hsame⟩
    rw [← hsame]
    exact (letter_spec n (h.lt n hn)).2.2
  · rw [List.eq_of_mem_replicate hpad]
    decide

theorem Spelling.head?_ne {values : List Nat} {pads : Nat} {text : String}
    (h : Spelling values pads text) : text.toList.head? ≠ some '=' := by
  rw [h.toList_eq]
  cases values with
  | nil =>
      rw [h.leading rfl]
      exact Option.some_ne_none _ ∘ Eq.symm
  | cons n rest =>
      intro hsame
      exact (letter_spec n (h.lt n List.mem_cons_self)).2.1 (Option.some.inj hsame)

/-- The strict reader accepts exactly the texts that spell some bytes, and gives these bytes. -/
theorem decode_eq_ok_iff {text : String} {data : Bytes} :
    decode text = .ok data <-> Spells text data := by
  constructor
  · intro h
    simp only [decode] at h
    split at h
    · cases h
    split at h
    · cases h
    rename_i hhead
    cases hscan : scan [] 0 false text.toList with
    | error flaw =>
        rw [hscan] at h
        cases h
    | ok result =>
        rw [hscan] at h
        cases h
        rcases scan_eq_ok.mp hscan with ⟨values, pads, hchars, hvalues, hfits, hresult⟩
        refine ⟨values, pads, ⟨hchars, hvalues, ?_, ?_⟩, ?_⟩
        · rwa [List.length_nil, Nat.zero_add] at hfits
        · intro hnil
          rw [hchars, hnil] at hhead
          cases pads with
          | zero =>
              rfl
          | succ pads =>
              exact absurd rfl hhead
        · rw [hresult]
          exact holds_join values hvalues
  · intro h
    rcases h with ⟨values, pads, hspelling, hholds⟩
    have hscan : scan [] 0 false text.toList = .ok values := by
      apply scan_eq_ok.mpr
      refine ⟨values, pads, hspelling.toList_eq, hspelling.lt, ?_, rfl⟩
      rw [List.length_nil, Nat.zero_add]
      exact hspelling.fits
    rw [decode]
    simp only [hspelling.ascii, if_neg hspelling.head?_ne, hscan, Bool.false_eq_true, if_false]
    exact congrArg Except.ok ((holds_join values hspelling.lt).unique hholds)

end Base64
end WalletVault
