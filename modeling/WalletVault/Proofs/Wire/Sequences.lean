import WalletVault.Attempts
import WalletVault.Proofs.Wire

/-!
# Sequences of reads and writes

A write that does not fit leaves the content as it is, and the reads that match
the other writes take it apart again. A read takes its bytes from the front,
whether it succeeds or finds too little, so the bytes that a sequence of reads has
taken and the rest make up the input.
-/

namespace WalletVault
namespace Wire

open WalletVault.Computation

/-!
# What is accepted
-/

/-- A number has to be in the range of its field; bytes can always be written. -/
def Write.Fits : Write -> Prop
  | .number width value => 0 <= value ∧ value < 256 ^ size width
  | .bytes _ => True

instance : DecidablePred Write.Fits
  | .number width value => inferInstanceAs (Decidable (0 <= value ∧ value < 256 ^ size width))
  | .bytes _ => inferInstanceAs (Decidable True)

def accepted (writes : List Write) : List Write :=
  writes.filter (fun write => write.Fits)

def Write.encoded : Write -> Bytes
  | .number width value => Bytes.ofNatLE (size width) value.toNat
  | .bytes data => data

def Write.matching : Write -> Read
  | .number width _ => .number width
  | .bytes data => .exact data.length

def Write.item : Write -> Item
  | .number _ value => .number value
  | .bytes data => .bytes data

namespace Write

theorem run_of_fits {write : Write} (hfits : write.Fits) (content : Bytes) :
    write.run content = (.ok ⟨⟩, content ++ write.encoded) := by
  cases write with
  | number width value =>
      rw [run, field, put_of_fits hfits, bind_of_ok (mk_apply _ content)]
      rfl
  | bytes data =>
      rfl

theorem run_of_not_fits {width : Width} {value : Int} (hfits : ¬ (Write.number width value).Fits)
    (content : Bytes) :
    exists cause, (cause = .width width ∨ cause = .wideNumber) ∧
      (Write.number width value).run content = (.error (.misuse cause), content) := by
  rcases put_of_not_fits hfits with ⟨cause, hcause, hput⟩
  refine ⟨cause, hcause, ?_⟩
  rw [run, field, hput, bind_apply, mk_apply]

theorem state_of_not_fits {write : Write} (hfits : ¬ write.Fits) (content : Bytes) :
    (write.run content).2 = content := by
  cases write with
  | number width value =>
      rcases run_of_not_fits hfits content with ⟨cause, _, hrun⟩
      rw [hrun]
  | bytes data =>
      exact absurd trivial hfits

theorem run_matching {write : Write} (hfits : write.Fits)
    (hsize : forall data, write = .bytes data -> Bytes.isSize data.length = true) (rest : Bytes) :
    write.matching.run (write.encoded ++ rest) = (.ok write.item, rest) := by
  cases write with
  | number width value =>
      have hnat : ((value.toNat : Nat) : Int) = value := Int.toNat_of_nonneg hfits.1
      have hbound : value.toNat < 256 ^ size width := by
        have hlimit : ((256 ^ size width : Nat) : Int) = 256 ^ size width :=
          Nat.cast_pow 256 (size width)
        have hvalue := hfits.2
        omega
      have hread := (number_eq_ok (isSize_size width)).mpr
        ⟨(rfl : encoded (.number width value) ++ rest = _), hbound⟩
      rw [matching, Read.run, bind_of_ok hread, hnat]
      rfl
  | bytes data =>
      have hread : exact data.length (data ++ rest) = (.ok data, rest) :=
        (exact_eq_ok (hsize data rfl)).mpr ⟨rfl, rfl⟩
      rw [matching, Read.run, encoded, bind_of_ok hread]
      rfl

end Write

/-- A sequence of writes appends what the accepted ones append, in order. -/
theorem attempts_writes (writes : List Write) (content : Bytes) :
    (attempts Write.run writes content).2 =
      content ++ (accepted writes).flatMap Write.encoded := by
  induction writes generalizing content with
  | nil =>
      exact (List.append_nil content).symm
  | cons write rest ih =>
      rw [attempts_cons, ih]
      by_cases hfits : write.Fits
      · have haccepted : accepted (write :: rest) = write :: accepted rest :=
          List.filter_cons_of_pos (decide_eq_true hfits)
        rw [Write.run_of_fits hfits, haccepted, List.flatMap_cons, List.append_assoc]
      · have haccepted : accepted (write :: rest) = accepted rest :=
          List.filter_cons_of_neg (by simp [hfits])
        rw [Write.state_of_not_fits hfits, haccepted]

theorem attempts_matching {writes : List Write} (hfits : forall write, write ∈ writes -> write.Fits)
    (hsizes : forall data, .bytes data ∈ writes -> Bytes.isSize data.length = true)
    (rest : Bytes) :
    attempts Read.run (writes.map Write.matching) (writes.flatMap Write.encoded ++ rest) =
      (writes.map (fun write => .ok write.item), rest) := by
  induction writes with
  | nil =>
      rfl
  | cons write writes ih =>
      have hwrite := Write.run_matching (hfits write List.mem_cons_self)
        (fun data hdata => hsizes data (hdata ▸ List.mem_cons_self))
        (writes.flatMap Write.encoded ++ rest)
      have hrest := ih (fun other hother => hfits other (List.mem_cons_of_mem _ hother))
        (fun data hdata => hsizes data (List.mem_cons_of_mem _ hdata))
      rw [List.map_cons, List.flatMap_cons, List.append_assoc, attempts_cons, hwrite, hrest,
        List.map_cons]

/-!
# What is consumed
-/

/-- What a read can come to: its result, the piece that it takes and the rest. A number is the one
whose digits the piece is. -/
inductive Serves : Read -> Except Fault Item -> Bytes -> Bytes -> Prop where
  | number {width : Width} {result : Except Fault Bytes} {piece rest : Bytes}
      (h : Gets (size width) result piece rest) :
      Serves (.number width) (result.map (fun data => .number (Bytes.toNatLE data))) piece rest
  | exact {needed : Int} {result : Except Fault Bytes} {piece rest : Bytes}
      (h : Gets needed result piece rest) : Serves (.exact needed) (result.map .bytes) piece rest
  | toEnd (piece : Bytes) : Serves .toEnd (.ok (.bytes piece)) piece []

inductive Served : List Read -> List (Except Fault Item) -> List Bytes -> Bytes -> Prop where
  | nil (rest : Bytes) : Served [] [] [] rest
  | cons {read : Read} {result : Except Fault Item} {piece : Bytes} {reads : List Read}
      {results : List (Except Fault Item)} {pieces : List Bytes} {rest : Bytes}
      (hread : Serves read result piece (pieces.flatten ++ rest))
      (hreads : Served reads results pieces rest) :
      Served (read :: reads) (result :: results) (piece :: pieces) rest

theorem exists_serves (read : Read) (input : Bytes) :
    exists result piece rest, read.run input = (result, rest) ∧ input = piece ++ rest ∧
      Serves read result piece rest := by
  cases read with
  | number width =>
      rcases exists_gets (size width) input with ⟨result, piece, rest, hexact, hsplit, hgets⟩
      have hnumber : Wire.number (size width) input = (result.map Bytes.toNatLE, rest) :=
        bind_pure_of_eq _ hexact
      refine ⟨_, piece, rest, (bind_pure_of_eq _ hnumber).trans ?_, hsplit, .number hgets⟩
      cases result <;> rfl
  | exact needed =>
      rcases exists_gets needed input with ⟨result, piece, rest, hexact, hsplit, hgets⟩
      exact ⟨_, piece, rest, bind_pure_of_eq _ hexact, hsplit, .exact hgets⟩
  | toEnd =>
      exact ⟨_, input, [], rfl, (List.append_nil input).symm, .toEnd input⟩

theorem exists_served (reads : List Read) (input : Bytes) :
    exists pieces,
      Served reads (attempts Read.run reads input).1 pieces (attempts Read.run reads input).2 ∧
        pieces.flatten ++ (attempts Read.run reads input).2 = input := by
  induction reads generalizing input with
  | nil =>
      exact ⟨[], .nil input, rfl⟩
  | cons read reads ih =>
      rcases exists_serves read input with ⟨result, piece, middle, hrun, hsplit, hserves⟩
      rcases ih middle with ⟨pieces, hserved, hpieces⟩
      rw [attempts_cons, hrun]
      refine ⟨piece :: pieces, .cons ?_ hserved, ?_⟩
      · rw [hpieces]
        exact hserves
      · rw [List.flatten_cons, List.append_assoc, hpieces]
        exact hsplit.symm

/-- A number out of the range of its field is refused and the content stays, every other write is
accepted, and the reads that match the accepted writes give back what was written, in order, and
leave nothing. The other way round, any sequence of reads of any input takes pieces from its front:
those that are delivered, all that was left where that was too little, and nothing for a size that
is none. The pieces and what is left for a read to the end are the input. (The length of a byte
string is always a size.) -/
theorem reads_mirror_writes (writes : List Write)
    (hsizes : forall data, .bytes data ∈ writes -> Bytes.isSize data.length = true) :
    (forall width value content, ¬ (0 <= value ∧ value < 256 ^ size width) ->
      exists cause, (cause = .width width ∨ cause = .wideNumber) ∧
        (Write.number width value).run content = (.error (.misuse cause), content)) ∧
    (forall (write : Write) content, write.Fits ->
      write.run content = (.ok ⟨⟩, content ++ write.encoded)) ∧
    attempts Read.run ((accepted writes).map Write.matching) (attempts Write.run writes []).2 =
      ((accepted writes).map (fun write => .ok write.item), []) ∧
    (forall reads input results rest, attempts Read.run reads input = (results, rest) ->
      exists pieces, Served reads results pieces rest ∧
        Read.run .toEnd rest = (.ok (.bytes rest), []) ∧ pieces.flatten ++ rest = input) := by
  refine ⟨?_, ?_, ?_, ?_⟩
  · intro width value content hfits
    exact Write.run_of_not_fits hfits content
  · intro write content hfits
    exact Write.run_of_fits hfits content
  · have hfits : forall write, write ∈ accepted writes -> write.Fits := by
      intro write hwrite
      exact of_decide_eq_true (List.mem_filter.mp hwrite).2
    have hread := attempts_matching hfits
      (fun data hdata => hsizes data (List.mem_filter.mp hdata).1) []
    rw [attempts_writes, List.nil_append]
    rwa [List.append_nil] at hread
  · intro reads input results rest hattempts
    rcases exists_served reads input with ⟨pieces, hserved, hpieces⟩
    rw [hattempts] at hserved hpieces
    exact ⟨pieces, hserved, rfl, hpieces⟩

/-- Two of five writes are refused, and a sequence of reads goes on behind one that finds too
little. -/
theorem reads_mirror_writes_some_refused :
    let writes : List Write :=
      [.number .u8 171, .number .u8 256, .number .u16 259, .bytes [116, 97], .number .u32 (-1)]
    (forall data, .bytes data ∈ writes -> Bytes.isSize data.length = true) ∧
    (exists cause, (cause = .width .u8 ∨ cause = .wideNumber) ∧
      (Write.number .u8 256).run [171] = (.error (.misuse cause), [171])) ∧
    (Write.number .u16 259).run [171] = (.ok ⟨⟩, [171, 3, 1]) ∧
    attempts Read.run [.number .u8, .number .u16, .exact 2] (attempts Write.run writes []).2 =
      ([.ok (.number 171), .ok (.number 259), .ok (.bytes [116, 97])], []) ∧
    exists results pieces rest,
      attempts Read.run [.number .u16, .exact 5, .number .u8] [3, 1, 116, 97] = (results, rest) ∧
        Served [.number .u16, .exact 5, .number .u8] results pieces rest ∧
        pieces.flatten ++ rest = [3, 1, 116, 97] := by
  intro writes
  have hsizes : forall data, .bytes data ∈ writes -> Bytes.isSize data.length = true := by
    intro data hdata
    have hsame : data = [116, 97] := by simpa [writes] using hdata
    rw [hsame]
    rfl
  rcases reads_mirror_writes writes hsizes with ⟨hrefused, haccepted, hread, hserved⟩
  refine ⟨hsizes, hrefused .u8 256 [171] (by decide),
    haccepted (.number .u16 259) [171] (by decide), hread, ?_⟩
  rcases hserved [.number .u16, .exact 5, .number .u8] [3, 1, 116, 97] _ _ rfl with
    ⟨pieces, hpieces, _, hinput⟩
  exact ⟨_, pieces, _, rfl, hpieces, hinput⟩

/-- A size that is wider than a machine word is refused before anything is read. Such a read fails
and takes nothing, whatever was left of its request. -/
theorem wide_size_takes_nothing :
    (Read.exact 9223372036854775808).run [1, 2, 3] = (.error (.misuse .sizeWidth), [1, 2, 3]) ∧
    ¬ (forall (needed : Int) (input : Bytes) (fault : Fault) (rest : Bytes), 0 <= needed ->
      (Read.exact needed).run input = (.error fault, rest) ->
        input.take needed.toNat ++ rest = input) := by
  have hrun : (Read.exact 9223372036854775808).run [1, 2, 3] =
      (.error (.misuse .sizeWidth), [1, 2, 3]) := rfl
  refine ⟨hrun, ?_⟩
  intro h
  have hsame := h 9223372036854775808 [1, 2, 3] _ _ (by decide) hrun
  have hlength := congrArg List.length hsame
  simp at hlength

end Wire
end WalletVault
