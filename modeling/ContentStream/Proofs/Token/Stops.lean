import ContentStream.Proofs.Operand.Nesting
import ContentStream.Proofs.Token.Failures

/-!
# Where reading stops

A reading that fails names a place in its input.  What fails inside a container fails
for the whole token, at the same place and for the same reason.
-/

namespace ContentStream

def StopsIn {α : Type} (input : Bytes) (result : Except Stuck α) : Prop :=
  ∀ stuck, result = .error stuck → stuck.rest <:+ input

theorem covers_stopsIn : Covers fun input stuck => stuck.rest <:+ input where
  in_suffix hplace hrest := hrest.trans hplace
  unterminatedLiteral _ := List.suffix_rfl
  unterminatedEscape _ := List.nil_suffix
  unterminatedHex _ := List.suffix_rfl
  hexDigit _ := List.suffix_cons _ _
  nameEncoding _ := List.suffix_rfl
  number _ _ := List.suffix_rfl
  unexpected _ := List.suffix_rfl
  nesting _ := List.suffix_rfl
  unterminated _ _ := List.nil_suffix
  keyExpected _ _ := List.suffix_rfl
  item _ _ := List.suffix_rfl
  entry _ _ _ := List.suffix_rfl
  imageDataMissing _ := List.suffix_rfl
  imageEndMissing _ := List.suffix_rfl

namespace Token

theorem read_stopsIn (levels : Nat) (input : Bytes) : StopsIn input (read levels input) :=
  read_failsAs covers_stopsIn levels input

theorem eq_error_of_map {α β γ : Type} {f : α → γ} {g : β → γ} {x : Except Stuck α}
    {y : Except Stuck β} {stuck : Stuck} (h : x.map f = y.map g) (hy : y = .error stuck) :
    x = .error stuck := by
  subst hy
  cases x with
  | ok value => simp [Except.map] at h
  | error other => exact congrArg Except.error (Except.error.inj h)

theorem Enters.stuck {levels : Nat} {input place : Bytes} {stuck : Stuck}
    (h : Enters (read levels) input place) (hstuck : read levels place = .error stuck) :
    read (levels + 1) input = .error stuck := by
  cases h with
  | @item tail items rest byte behind hskip hvisits hfirst hbyte =>
      have hround : takeItems (read levels) items rest = .error stuck :=
        takeItems_stuck hfirst hbyte (takeOperand_stuck hstuck .array)
      have hitems : takeItems (read levels) [] tail = .error stuck :=
        eq_error_of_map ((computes_itemLoop (read levels)).visits hvisits) hround
      refine readWith_stuck hskip ?_
      rw [takeFirst, if_neg (by decide), if_neg (by decide), if_pos rfl, takeArray, hitems]
  | @entry tail entries rest behind key hskip hvisits hfirst hkey =>
      have hround : takeEntries (read levels) dictionaryEnd entries rest = .error stuck :=
        takeEntries_stuck hfirst (close?_slash behind) ⟨key.shorter, hkey⟩
          (takeOperand_stuck hstuck .dictionary)
      have hentries : takeEntries (read levels) dictionaryEnd [] tail = .error stuck :=
        eq_error_of_map ((computes_entryLoop (read levels) dictionaryEnd).visits hvisits) hround
      refine readWith_stuck hskip ?_
      rw [takeFirst, if_neg (by decide), if_pos rfl, takeAngle, if_pos rfl, takeDictionary,
        hentries]

theorem Nests.stuck {containers levels lower : Nat} {input place : Bytes} {stuck : Stuck}
    (h : Nests containers levels input lower place) (hstuck : read lower place = .error stuck) :
    read levels input = .error stuck := by
  induction h with
  | here => exact hstuck
  | enter henters _ ih => exact henters.stuck (ih hstuck)

end Token

end ContentStream
