import WalletVault.Proofs.Base58.Spelling
import WalletVault.Proofs.Computation

/-!
# Base-58 texts and byte strings

A text over the alphabet is a list of values below 58, and a byte string is a
list of values below 256. Both are spellings of the same digits, so a text is
read as the byte string that is written as this text and as no other.
-/

namespace WalletVault
namespace Base58

/-!
# Letters
-/

theorem value?_letter : forall n, n < 58 -> value? (letter n) = some n := by
  decide +kernel

theorem value?_eq_some {c : Char} {n : Nat} : value? c = some n <-> n < 58 ∧ letter n = c := by
  constructor
  · intro h
    rcases List.idxOf?_eq_some_iff.mp h with ⟨hn, hc, _⟩
    refine ⟨hn, ?_⟩
    rw [letter, List.getD_eq_getElem?_getD, List.getElem?_eq_getElem hn, Option.getD_some, hc]
  · intro h
    rcases h with ⟨hn, hc⟩
    rw [← hc, value?_letter n hn]

theorem mapM_value?_eq_some {text : List Char} {values : List Nat} :
    text.mapM value? = some values <->
      (forall n, n ∈ values -> n < 58) ∧ values.map letter = text := by
  induction text generalizing values with
  | nil =>
      rw [List.mapM_nil, List.map_eq_nil_iff]
      constructor
      · intro h
        cases h
        exact ⟨List.forall_mem_nil _, rfl⟩
      · intro h
        rw [h.2]
        rfl
  | cons c rest ih =>
      rw [List.mapM_cons, List.map_eq_cons_iff]
      constructor
      · intro h
        rcases Option.bind_eq_some_iff.mp h with ⟨n, hn, h⟩
        rcases Option.bind_eq_some_iff.mp h with ⟨others, hothers, hvalues⟩
        cases hvalues
        rcases value?_eq_some.mp hn with ⟨hlt, hc⟩
        rcases ih.mp hothers with ⟨hrest, hletters⟩
        exact ⟨List.forall_mem_cons.mpr ⟨hlt, hrest⟩, n, others, rfl, hc, hletters⟩
      · intro h
        rcases h with ⟨hlt, n, others, hvalues, hc, hletters⟩
        rw [hvalues] at hlt ⊢
        rcases List.forall_mem_cons.mp hlt with ⟨hn, hrest⟩
        rw [value?_eq_some.mpr ⟨hn, hc⟩, ih.mpr ⟨hrest, hletters⟩]
        rfl

theorem exists_mapM_value? {text : List Char} :
    (exists values, text.mapM value? = some values) <-> forall c, c ∈ text -> c ∈ alphabet := by
  constructor
  · intro h
    rcases h with ⟨values, hvalues⟩
    rcases mapM_value?_eq_some.mp hvalues with ⟨hlt, hletters⟩
    intro c hc
    rw [← hletters] at hc
    rcases List.mem_map.mp hc with ⟨n, hn, hsame⟩
    have hvalue := value?_eq_some.mpr ⟨hlt n hn, hsame⟩
    exact List.isSome_idxOf?.mp (Option.isSome_of_eq_some hvalue)
  · intro h
    refine ⟨text.map (fun c => (value? c).getD 0), Computation.mapM_eq_some_map ?_⟩
    intro c hc
    have hvalue : (value? c).isSome = true := List.isSome_idxOf?.mpr (h c hc)
    rw [Option.getD_of_ne_none (Option.isSome_iff_ne_none.mp hvalue)]

theorem isValid_iff {text : String} :
    isValid text = true <-> text ≠ "" ∧ forall c, c ∈ text.toList -> c ∈ alphabet := by
  rw [isValid, Bool.and_eq_true, Bool.not_eq_true', String.isEmpty_eq_false_iff, List.all_eq_true]
  apply and_congr_right
  intro _
  apply forall₂_congr
  intro c _
  exact List.isSome_idxOf?

/-!
# Reading
-/

theorem decode_eq_ok {text : String} {data : Bytes} :
    decode text = .ok data <->
      text ≠ "" ∧ exists values, (forall n, n ∈ values -> n < 58) ∧
        values.map letter = text.toList ∧ decodeValues values = data := by
  unfold decode
  split
  · rename_i hempty
    have hnone : text = "" := String.isEmpty_iff.mp hempty
    simp [hnone]
  · rename_i hempty
    have hsome : text ≠ "" := fun hnone => hempty (String.isEmpty_iff.mpr hnone)
    rw [and_iff_right hsome]
    split
    · rename_i hforeign
      constructor
      · intro h
        cases h
      · intro h
        rcases h with ⟨values, hlt, hletters, _⟩
        rw [mapM_value?_eq_some.mpr ⟨hlt, hletters⟩] at hforeign
        cases hforeign
    · rename_i values hvalues
      constructor
      · intro h
        rcases mapM_value?_eq_some.mp hvalues with ⟨hlt, hletters⟩
        exact ⟨values, hlt, hletters, Except.ok.inj h⟩
      · intro h
        rcases h with ⟨others, hlt, hletters, hdata⟩
        rw [mapM_value?_eq_some.mpr ⟨hlt, hletters⟩] at hvalues
        cases hvalues
        rw [hdata]

theorem exists_decode {text : String} (h : isValid text = true) :
    exists data, decode text = .ok data := by
  rcases isValid_iff.mp h with ⟨hsome, hletters⟩
  rcases exists_mapM_value?.mpr hletters with ⟨values, hvalues⟩
  rcases mapM_value?_eq_some.mp hvalues with ⟨hlt, hback⟩
  exact ⟨_, decode_eq_ok.mpr ⟨hsome, values, hlt, hback, rfl⟩⟩

theorem decode_of_not_valid {text : String} (h : ¬ isValid text = true) :
    decode text = .error (.base58 (if text = "" then .emptyText else .foreignLetter)) := by
  rw [isValid_iff, ← exists_mapM_value?] at h
  unfold decode
  split
  · rename_i hempty
    rw [if_pos (String.isEmpty_iff.mp hempty)]
  · rename_i hempty
    have hsome : text ≠ "" := fun hnone => hempty (String.isEmpty_iff.mpr hnone)
    rw [if_neg hsome]
    split
    · rfl
    · rename_i values hvalues
      exact absurd ⟨hsome, values, hvalues⟩ h

theorem decode_cases (text : String) :
    (exists data, decode text = .ok data) ∨ exists flaw, decode text = .error (.base58 flaw) := by
  by_cases hvalid : isValid text = true
  · exact Or.inl (exists_decode hvalid)
  · exact Or.inr ⟨_, decode_of_not_valid hvalid⟩

/-!
# Writing
-/

theorem encode_eq_ok {data : Bytes} {text : String} :
    encode data = .ok text <-> data ≠ [] ∧ encodeChars data = text.toList := by
  unfold encode
  split
  · rename_i hnone
    simp [hnone]
  · rename_i hsome
    rw [Except.ok.injEq, and_iff_right hsome]
    constructor
    · intro h
      rw [← h, String.toList_ofList]
    · intro h
      rw [h, String.ofList_toList]

theorem map_toNat_map_ofNat {values : List Nat} (h : forall n, n ∈ values -> n < 256) :
    (values.map UInt8.ofNat).map UInt8.toNat = values := by
  rw [List.map_map]
  exact (List.map_congr_left (fun n hn => UInt8.toNat_ofNat_of_lt' (h n hn))).trans
    (List.map_id values)

theorem map_ofNat_map_toNat (data : Bytes) : (data.map UInt8.toNat).map UInt8.ofNat = data := by
  rw [List.map_map]
  exact (List.map_congr_left (fun b _ => UInt8.ofNat_toNat)).trans (List.map_id data)

theorem lt_of_mem_map_toNat {data : Bytes} : forall n, n ∈ data.map UInt8.toNat -> n < 256 := by
  intro n hn
  rcases List.mem_map.mp hn with ⟨b, _, hb⟩
  rw [← hb]
  exact b.toNat_lt

/-- The values that a byte string is written with are those that it is read from. -/
theorem decodeValues_eq_iff {values : List Nat} {data : Bytes}
    (h : forall n, n ∈ values -> n < 58) :
    decodeValues values = data <-> respell 256 58 (data.map UInt8.toNat) = values := by
  rw [decodeValues_eq]
  constructor
  · intro hdata
    rw [← hdata, map_toNat_map_ofNat (lt_of_mem_respell (by decide)),
      respell_respell (by decide) h]
  · intro hvalues
    rw [← hvalues, respell_respell (by decide) lt_of_mem_map_toNat, map_ofNat_map_toNat]

theorem encodeChars_eq_nil_iff {data : Bytes} : encodeChars data = [] <-> data = [] := by
  rw [encodeChars_eq, List.map_eq_nil_iff, respell_eq_nil_iff (by decide) lt_of_mem_map_toNat,
    List.map_eq_nil_iff]

/-- A text is read as a byte string just in case the byte string is written as this text. -/
theorem decode_eq_ok_iff_encode_eq_ok {text : String} {data : Bytes} :
    decode text = .ok data <-> encode data = .ok text := by
  have hsome : encodeChars data = text.toList -> (text ≠ "" <-> data ≠ []) := by
    intro hchars
    rw [← encodeChars_eq_nil_iff.ne, hchars, String.toList_eq_nil_iff.ne]
  rw [decode_eq_ok, encode_eq_ok]
  constructor
  · intro h
    rcases h with ⟨htext, values, hlt, hletters, hdata⟩
    have hvalues := (decodeValues_eq_iff hlt).mp hdata
    have hchars : encodeChars data = text.toList := by
      rw [encodeChars_eq, hvalues, hletters]
    exact ⟨(hsome hchars).mp htext, hchars⟩
  · intro h
    rcases h with ⟨hdata, hchars⟩
    have hlt : forall n, n ∈ respell 256 58 (data.map UInt8.toNat) -> n < 58 :=
      lt_of_mem_respell (by decide)
    exact ⟨(hsome hchars).mpr hdata, _, hlt, (encodeChars_eq data).symm.trans hchars,
      (decodeValues_eq_iff hlt).mpr rfl⟩

theorem exists_encode {data : Bytes} (h : data ≠ []) : exists text, encode data = .ok text :=
  ⟨_, if_neg h⟩

theorem encode_zeros {count : Nat} (h : 0 < count) :
    encode (Bytes.zeros count) = .ok (String.ofList (List.replicate count '1')) := by
  have hsome : Bytes.zeros count ≠ [] := by
    apply List.ne_nil_of_length_pos
    rwa [Bytes.length_zeros]
  apply encode_eq_ok.mpr
  refine ⟨hsome, ?_⟩
  rw [encodeChars_eq, Bytes.zeros, List.map_replicate, String.toList_ofList]
  change (respell 256 58 (List.replicate count 0)).map letter = _
  rw [respell_replicate_zero, List.map_replicate]
  rfl

/-- Byte strings that are not empty and texts of letters that are not empty correspond one to one:
each is written, or read, as the other. All other texts are refused, so the texts that are read are
the valid ones. A string of zeros is as many letters for zero. -/
theorem texts_correspond_to_bytes :
    (forall data : Bytes, data ≠ [] ->
      exists text, encode data = .ok text ∧ decode text = .ok data) ∧
    (forall text : String, text ≠ "" -> (forall c, c ∈ text.toList -> c ∈ alphabet) ->
      exists data, decode text = .ok data ∧ encode data = .ok text) ∧
    (forall text : String, ¬ (text ≠ "" ∧ forall c, c ∈ text.toList -> c ∈ alphabet) ->
      decode text = .error (.base58 (if text = "" then .emptyText else .foreignLetter))) ∧
    (forall text : String, (exists data, decode text = .ok data) <-> isValid text = true) ∧
    (forall count, 0 < count ->
      encode (Bytes.zeros count) = .ok (String.ofList (List.replicate count '1'))) := by
  refine ⟨?_, ?_, ?_, ?_, fun count hcount => encode_zeros hcount⟩
  · intro data hsome
    rcases exists_encode hsome with ⟨text, htext⟩
    exact ⟨text, htext, decode_eq_ok_iff_encode_eq_ok.mpr htext⟩
  · intro text hsome hletters
    rcases exists_decode (isValid_iff.mpr ⟨hsome, hletters⟩) with ⟨data, hdata⟩
    exact ⟨data, hdata, decode_eq_ok_iff_encode_eq_ok.mp hdata⟩
  · intro text hforeign
    exact decode_of_not_valid (fun hvalid => hforeign (isValid_iff.mp hvalid))
  · intro text
    constructor
    · intro h
      rcases h with ⟨data, hdata⟩
      by_contra hvalid
      rw [decode_of_not_valid hvalid] at hdata
      cases hdata
    · exact exists_decode

/-- Two zeros in front are two letters for zero, also where nothing follows them. -/
theorem texts_correspond_to_bytes_leading_zeros :
    encode [0, 0, 1] = .ok "112" ∧ decode "112" = .ok [0, 0, 1] ∧
      encode (Bytes.zeros 2) = .ok "11" ∧ decode "11" = .ok (Bytes.zeros 2) ∧
      decode "0OIl" = .error (.base58 .foreignLetter) := by
  have hread : decode "112" = .ok [0, 0, 1] := by
    decide +kernel
  rcases texts_correspond_to_bytes with ⟨hbytes, htexts, hforeign, _, hzeros⟩
  have hvalid : isValid "112" = true := by
    decide +kernel
  have hletter : ¬ isValid "0OIl" = true := by
    decide +kernel
  rcases isValid_iff.mp hvalid with ⟨hsome, hletters⟩
  rcases htexts "112" hsome hletters with ⟨data, hdata, hwritten⟩
  cases hread.symm.trans hdata
  have hones := hzeros 2 (by decide)
  rcases hbytes (Bytes.zeros 2) (by decide) with ⟨text, htext, hback⟩
  cases hones.symm.trans htext
  exact ⟨hwritten, hread, hones, hback, hforeign "0OIl" (isValid_iff.not.mp hletter)⟩

end Base58
end WalletVault
