import Mathlib
import KawaiiLang.Stream.Sink

namespace KawaiiLang.Sink

/-- A sink that never refuses anything. -/
structure Unbounded (sink : Sink) : Prop where
  taken : ∀ kept asked text, sink.capacity.refusal? kept asked text = none
  flushed : ∀ kept asked, sink.flushLimit.refusal? kept asked = none

/-- A sink that holds `bound` bytes. It takes a text that fits, keeps of another one the part that
    does, and never refuses a flush. -/
structure Bounded (bound : Nat) (sink : Sink) : Prop where
  taken : ∀ kept asked text, kept.size + text.toUTF8.size ≤ bound →
    sink.capacity.refusal? kept asked text = none
  refused : ∀ kept asked text, text ≠ "" → bound < kept.size + text.toUTF8.size →
    ∃ reason, sink.capacity.refusal? kept asked text = some (bound - kept.size, reason)
  flushed : ∀ kept asked, sink.flushLimit.refusal? kept asked = none

theorem flush_fst {sink : Sink}
    (hflushed : ∀ kept asked, sink.flushLimit.refusal? kept asked = none) :
    sink.flush.1 = .ok () := by
  unfold flush
  rw [hflushed]

theorem unbounded_ofNat? : Unbounded {} :=
  ⟨fun _ _ _ => rfl, fun _ _ => rfl⟩

theorem bounded_ofNat? (bound : Nat) : Bounded bound { capacity := some bound } := by
  refine ⟨?_, ?_, fun _ _ => rfl⟩
  · intro kept _ text hfits
    exact if_neg (by omega)
  · intro kept _ text htext hfull
    have hsize : 0 < text.toUTF8.size := by
      rw [Nat.pos_iff_ne_zero]
      simpa using htext
    exact ⟨_, if_pos (by omega)⟩

section

variable {sink : Sink} {bound : Nat}

theorem Unbounded.taken_eq (hsink : sink.Unbounded) (text : String) :
    sink.taken text = text.toUTF8.size := by
  rw [Sink.taken, hsink.taken]

theorem Unbounded.write_fst (hsink : sink.Unbounded) (text : String) :
    (sink.write text).1 = .ok () := by
  unfold Sink.write
  rw [hsink.taken]
  split <;> rfl

theorem Bounded.taken_eq (hsink : sink.Bounded bound) {text : String} (htext : text ≠ "") :
    sink.taken text = min text.toUTF8.size (bound - sink.kept.size) := by
  rw [Sink.taken]
  by_cases hfits : sink.kept.size + text.toUTF8.size ≤ bound
  · rw [hsink.taken _ _ _ hfits]
    dsimp only
    omega
  · obtain ⟨reason, hrefused⟩ := hsink.refused sink.kept sink.asked text htext (by omega)
    rw [hrefused]
    dsimp only
    omega

theorem Bounded.write_fst (hsink : sink.Bounded bound) {text : String}
    (hfits : sink.kept.size + text.toUTF8.size ≤ bound) : (sink.write text).1 = .ok () := by
  unfold Sink.write
  rw [hsink.taken _ _ _ hfits]
  split <;> rfl

end

/-- The sink as if it had never been flushed. -/
def unflushed (sink : Sink) : Sink :=
  { sink with asked := sink.asked.filter (· ≠ .flush) }

/-- Flushes never fail, and make no difference to what can be written afterwards. -/
structure IgnoresFlushes (sink : Sink) : Prop where
  flushed : ∀ kept asked, sink.flushLimit.refusal? kept asked = none
  written : ∀ kept asked text, sink.capacity.refusal? kept (asked.filter (· ≠ .flush)) text =
    sink.capacity.refusal? kept asked text

theorem Unbounded.ignoresFlushes {sink : Sink} (hsink : sink.Unbounded) : sink.IgnoresFlushes := by
  refine ⟨hsink.flushed, ?_⟩
  intro kept asked text
  rw [hsink.taken, hsink.taken]

namespace IgnoresFlushes

variable {sink : Sink}

theorem write_unflushed (hsink : sink.IgnoresFlushes) (text : String) :
    sink.unflushed.write text = ((sink.write text).1, (sink.write text).2.unflushed) := by
  simp only [write, unflushed, hsink.written]
  split
  · rfl
  · cases sink.capacity.refusal? sink.kept sink.asked text <;> rfl

end IgnoresFlushes

theorem extract_min (bytes : ByteArray) (stop : Nat) :
    bytes.extract 0 (min bytes.size stop) = bytes.extract 0 stop := by
  have hall := bytes.extract_extract (i := 0) (j := bytes.size) (k := 0) (l := stop)
  rw [ByteArray.extract_zero_size, Nat.zero_add, Nat.zero_add, Nat.min_comm] at hall
  exact hall.symm

/-- Nothing that was kept has been lost. A sink that was full has kept nothing more. -/
structure Extends (before after : Sink) : Prop where
  capacity : after.capacity = before.capacity
  flushLimit : after.flushLimit = before.flushLimit
  kept : ∃ more, after.kept = before.kept ++ more
  full : ∀ bound, before.Bounded bound → bound ≤ before.kept.size → after.kept = before.kept

namespace Extends

variable {before after : Sink}

theorem refl (sink : Sink) : sink.Extends sink :=
  ⟨rfl, rfl, ⟨.empty, ByteArray.append_empty.symm⟩, fun _ _ _ => rfl⟩

theorem bounded (hextends : before.Extends after) {bound : Nat} (hbefore : before.Bounded bound) :
    after.Bounded bound := by
  refine ⟨?_, ?_, ?_⟩
  · rw [hextends.capacity]
    exact hbefore.taken
  · rw [hextends.capacity]
    exact hbefore.refused
  · rw [hextends.flushLimit]
    exact hbefore.flushed

theorem unbounded (hextends : before.Extends after) (hbefore : before.Unbounded) :
    after.Unbounded := by
  refine ⟨?_, ?_⟩
  · rw [hextends.capacity]
    exact hbefore.taken
  · rw [hextends.flushLimit]
    exact hbefore.flushed

theorem ignoresFlushes (hextends : before.Extends after) (hbefore : before.IgnoresFlushes) :
    after.IgnoresFlushes := by
  refine ⟨?_, ?_⟩
  · rw [hextends.flushLimit]
    exact hbefore.flushed
  · rw [hextends.capacity]
    exact hbefore.written

theorem trans {first second third : Sink} (hfirst : first.Extends second)
    (hsecond : second.Extends third) : first.Extends third := by
  refine ⟨hsecond.capacity.trans hfirst.capacity, hsecond.flushLimit.trans hfirst.flushLimit,
    ?_, ?_⟩
  · obtain ⟨more, hmore⟩ := hfirst.kept
    obtain ⟨others, hothers⟩ := hsecond.kept
    exact ⟨more ++ others, by rw [hothers, hmore, ByteArray.append_assoc]⟩
  · intro bound hbounded hfull
    have hkept := hfirst.full bound hbounded hfull
    have hagain := hsecond.full bound (hfirst.bounded hbounded) (hkept ▸ hfull)
    exact hagain.trans hkept

theorem size_le (hextends : before.Extends after) : before.kept.size ≤ after.kept.size := by
  obtain ⟨more, hmore⟩ := hextends.kept
  rw [hmore, ByteArray.size_append]
  exact Nat.le_add_right _ _

end Extends

theorem extends_write (sink : Sink) (text : String) : sink.Extends (sink.write text).2 := by
  by_cases htext : text = ""
  · rw [htext, write_empty]
    exact .refl sink
  rw [write_snd sink htext]
  refine ⟨rfl, rfl, ⟨_, rfl⟩, ?_⟩
  intro bound hbounded hfull
  have htaken : sink.taken text = 0 := by
    rw [hbounded.taken_eq htext]
    omega
  rw [htaken, ByteArray.extract_same, ByteArray.append_empty]

theorem extends_flush (sink : Sink) : sink.Extends sink.flush.2 :=
  { Extends.refl sink with }

/-- `bounded` holds at most `bound` bytes, and has kept as many of those that `whole` has. -/
structure Truncates (bound : Nat) (bounded whole : Sink) : Prop where
  kept : bounded.kept = whole.kept.extract 0 bound
  bounded : bounded.Bounded bound
  unbounded : whole.Unbounded

namespace Truncates

variable {bound : Nat} {bounded whole : Sink}

theorem size_kept (htruncates : bounded.Truncates bound whole) :
    bounded.kept.size = min bound whole.kept.size := by
  rw [htruncates.kept, ByteArray.size_extract, Nat.sub_zero]

/-- Once there is more than it can hold, it does not matter what is written to either. -/
theorem of_extends (htruncates : bounded.Truncates bound whole) (hfull : bound ≤ whole.kept.size)
    {bounded' whole' : Sink} (hbounded : bounded.Extends bounded')
    (hwhole : whole.Extends whole') : bounded'.Truncates bound whole' := by
  refine ⟨?_, hbounded.bounded htruncates.bounded, hwhole.unbounded htruncates.unbounded⟩
  obtain ⟨more, hmore⟩ := hwhole.kept
  have hsize : bound ≤ bounded.kept.size := by
    rw [htruncates.size_kept]
    omega
  rw [hbounded.full bound htruncates.bounded hsize, htruncates.kept, hmore,
    ByteArray.extract_append, Nat.sub_eq_zero_of_le hfull, Nat.zero_sub, ByteArray.extract_same,
    ByteArray.append_empty]

theorem taken_bounded (htruncates : bounded.Truncates bound whole) {text : String}
    (htext : text ≠ "") :
    bounded.taken text = min text.toUTF8.size (bound - whole.kept.size) := by
  rw [htruncates.bounded.taken_eq htext, htruncates.size_kept]
  omega

theorem kept_write (htruncates : bounded.Truncates bound whole) (text : String) :
    (whole.write text).2.kept = whole.kept ++ text.toUTF8 := by
  by_cases htext : text = ""
  · rw [htext, write_empty]
    exact ByteArray.append_empty.symm
  · rw [write_snd whole htext, htruncates.unbounded.taken_eq, ByteArray.extract_zero_size]

theorem write (htruncates : bounded.Truncates bound whole) (text : String) :
    (bounded.write text).2.Truncates bound (whole.write text).2 := by
  refine ⟨?_, (bounded.extends_write text).bounded htruncates.bounded,
    (whole.extends_write text).unbounded htruncates.unbounded⟩
  by_cases htext : text = ""
  · rw [htext, write_empty, write_empty]
    exact htruncates.kept
  · rw [htruncates.kept_write, write_snd bounded htext, htruncates.taken_bounded htext,
      htruncates.kept, ByteArray.extract_append, Nat.zero_sub, extract_min]

/-- What fits is written to both with the same success. -/
theorem fst_write (htruncates : bounded.Truncates bound whole) {text : String}
    (hfits : (whole.write text).2.kept.size ≤ bound) :
    (bounded.write text).1 = (whole.write text).1 := by
  rw [htruncates.kept_write, ByteArray.size_append] at hfits
  have hsize := htruncates.size_kept
  rw [htruncates.unbounded.write_fst, htruncates.bounded.write_fst (by omega)]

theorem flush (htruncates : bounded.Truncates bound whole) :
    bounded.flush.2.Truncates bound whole.flush.2 :=
  ⟨htruncates.kept, bounded.extends_flush.bounded htruncates.bounded,
    whole.extends_flush.unbounded htruncates.unbounded⟩

theorem fst_flush (htruncates : bounded.Truncates bound whole) :
    bounded.flush.1 = whole.flush.1 := by
  rw [flush_fst htruncates.bounded.flushed, flush_fst htruncates.unbounded.flushed]

end Truncates
end KawaiiLang.Sink
