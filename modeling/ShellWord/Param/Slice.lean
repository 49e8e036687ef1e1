import ShellWord.Text.Basic

/-!
# Slices

`${x:offset:length}` takes characters of a value, `${@:offset:length}` takes positional parameters.
Offsets count from zero, and a negative one counts back from the end.  All numbers here are integers
without bound, so no intermediate value can overflow.

## Main definitions

* `sliceStart`: where a slice begins
* `substring?`: characters of a value; a negative length counts back from the end of the value
* `slicePositional?`: positional parameters, `$0` among them; a negative length is an error
-/

namespace ShellWord

/-- The place where a slice of something of size `size` begins; a negative offset counts back from
the end. -/
def sliceStart (size : Nat) (offset : Int) : Int :=
  if offset < 0 then size + offset else offset

/-- A place from which something can be taken. -/
def inRange (size : Nat) (start : Int) : Bool :=
  0 ≤ start && start < size

/-- The characters of `value` from `offset` on: all of them, `length` of them, or those before the
place that a negative `length` counts back to from the end.  Outside the value there are none.  There
is no answer when a negative length ends the slice before it begins. -/
def substring? (value : Text) (offset : Int) (length : Option Int) : Option Text :=
  let start := sliceStart value.length offset
  if inRange value.length start then
    match length with
    | none => some (value.drop start.toNat)
    | some count =>
      if count < 0 then
        if value.length + count < start then none
        else some ((value.take (value.length + count).toNat).drop start.toNat)
      else
        some ((value.drop start.toNat).take count.toNat)
  else
    some []

/-- The positional parameters from `offset` on, counted with `$0` in front: all of them or `length`
of them.  There is no answer for a negative length. -/
def slicePositional? (shellName : Text) (params : List Text) (offset : Int) (length : Option Int) :
    Option (List Text) :=
  let all := shellName :: params
  let start := sliceStart all.length offset
  let rest := if inRange all.length start then all.drop start.toNat else []
  match length with
  | none => some rest
  | some count => if count < 0 then none else some (rest.take count.toNat)

end ShellWord
