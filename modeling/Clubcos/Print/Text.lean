import Clubcos.Print.Stores

/-!
# The text of a call

* `Out.text`, `Printed.text`   what stands in front of `str`, and what a call returns the length of;
* `text_write`                 a text is stored behind the one that is there;
* `vsnprintf_one`              **a call with one conversion** ends with what its piece leaves, cut off or not.
-/

set_option linter.unusedVariables false

namespace Clubcos
open Word

/-- the characters in front of `str` -/
def Out.text (o : Out) : List Byte := (List.range o.str).map o.buf

/-- the characters whose number is returned -/
def Printed.text (r : Printed) : List Byte := (List.range r.ret).map r.buf

/-- `t` and the `'\0'` are in the buffer, and the length of `t` is returned -/
def Printed.Holds (r : Printed) (t : List Byte) : Prop := r.text = t ∧ r.buf t.length = 0

theorem text_store (o : Out) (c : Byte) : (o.store c).text = o.text := by
  refine List.map_congr_left fun i hi => ?_
  exact Function.update_of_ne (Nat.ne_of_lt (List.mem_range.mp hi)) _ _

theorem text_push (o : Out) (c : Byte) : (o.push c).text = o.text ++ [c] := by
  have hbefore : (List.range o.str).map (o.store c).buf = o.text := text_store o c
  show (List.range (o.str + 1)).map (o.store c).buf = _
  rw [List.range_succ, List.map_append, hbefore, List.map_singleton]
  exact congrArg (fun b => o.text ++ [b]) (Function.update_self _ _ _)

theorem text_write (t : List Byte) (o : Out) : (o.write t).text = o.text ++ t := by
  induction t generalizing o with
  | nil => simp [Out.write]
  | cons c t ih =>
    show ((o.push c).write t).text = _
    rw [ih, text_push, List.append_assoc, List.singleton_append]

theorem text_length (o : Out) : o.text.length = o.str := by
  rw [Out.text, List.length_map, List.length_range]

theorem text_start (buf : Nat → Byte) (size : BitVec 32) : (Out.start buf size).text = [] := rfl

/-- what a call leaves when it has come to its end -/
theorem finish_holds {o : Out} {t : List Byte} (h : o.str < 2^32) : o.finish.Holds t ↔ o.text = t := by
  have hret : o.finish.ret = o.str := u32_of_lt h
  have htext : o.finish.text = o.text := by
    rw [Printed.text, hret]
    exact text_store o 0
  constructor
  · rintro ⟨htext', _⟩
    rw [← htext', htext]
  · rintro rfl
    refine ⟨htext, ?_⟩
    rw [text_length]
    exact Function.update_self _ _ _

/-! ## one conversion -/

/-- a call for one directive, whose piece is `p` -/
theorem vsnprintf_one {front buf : Nat → Byte} {size : BitVec 32} {fmt : List Byte} {args args' : List Arg} {d : Directive}
    {p : Piece} (hsize : 2 ≤ size.toNat) (hfmt : parseFormat fmt = some [d]) (hf : d.fetch front args = some (p, args')) :
    vsnprintf front buf size fmt args = some (merge (p.print (.start buf size))).finish := by
  have h0 : size ≠ 0 := by
    rintro rfl
    exact absurd hsize (by decide)
  have h1 : size ≠ 1 := by
    rintro rfl
    exact absurd hsize (by decide)
  have hprint : printDirectives front [d] args (.start buf size) = some (merge (p.print (.start buf size))) := by
    rw [printDirectives, hf, Option.bind_some]
    cases hp : p.print (.start buf size) <;> simp [printDirectives, merge, hp]
  rw [vsnprintf, if_neg h0, if_neg h1, hfmt, Option.bind_some, hprint, Option.map_some]

/-- a number that fits -/
theorem number_text {lead rest : List Byte} {o : Out} (h : lead.length + rest.length ≤ (o.size - 1).toNat) :
    (merge ((Piece.number lead false rest).print o)).text = o.text ++ lead ++ rest ∧
      (merge ((Piece.number lead false rest).print o)).str = o.str + lead.length + rest.length := by
  have hplain : (putAll lead o).bind (hexPrefix false) = putAll lead o := by
    cases putAll lead o <;> rfl
  have hall : ((putAll lead o).bind (hexPrefix false)).bind (putAll rest) =
      .ok { o.write (lead ++ rest) with size := o.size - BitVec.ofNat 32 (lead ++ rest).length } := by
    rw [hplain, ← putAll_append, putAll_ok (by rwa [List.length_append])]
  have hend : ∀ o' : Out, merge (if o'.size = 1 then .error o' else .ok o') = o' := by
    intro o'
    split <;> rfl
  have hprint : merge ((Piece.number lead false rest).print o) =
      { o.write (lead ++ rest) with size := o.size - BitVec.ofNat 32 (lead ++ rest).length } := by
    unfold Piece.print
    simp only [hall]
    exact hend _
  rw [hprint]
  constructor
  · rw [List.append_assoc]
    exact text_write (lead ++ rest) o
  · rw [Nat.add_assoc, ← List.length_append]
    exact write_str (lead ++ rest) o

end Clubcos
