import Mathlib.Data.List.OfFn
import PocketConsole.Proofs.CommandLine.PictureFile
import PocketConsole.Proofs.CommandLine.Sums
import PocketConsole.Proofs.Files.ReadBack

namespace PocketConsole

/-! ### Shades -/

namespace Shade

/-- The colour of a shade, if it has one. -/
def colour? (shade : UInt8) : Option UInt32 :=
  if shade = 0 then none else palette[shade.toNat - 1]?

/-- The word of a shade: its colour below full opacity, or nothing at all. -/
def word (shade : UInt8) : UInt32 :=
  match colour? shade with
  | some colour => 0xFF000000 ||| colour
  | none => 0

/-- The bytes of red, green, blue and opacity of a shade. -/
def bytes (shade : UInt8) : List UInt8 :=
  match colour? shade with
  | some colour => [(colour >>> 16).toUInt8, (colour >>> 8).toUInt8, colour.toUInt8, 255]
  | none => [0, 0, 0, 0]

/-- The character of a shade. -/
def glyph (shade : UInt8) : Char :=
  match shade.toNat with
  | 1 => '.'
  | 2 => '+'
  | 3 => '#'
  | _ => ' '

/-- A shade has one of the three colours, or no colour. -/
theorem cases_colour (shade : UInt8) :
    shade = 1 ∨ shade = 2 ∨ shade = 3 ∨
      (argb palette shade = 0 ∧ colour? shade = none ∧ glyph shade = ' ') := by
  by_cases first : shade = 1
  · exact .inl first
  by_cases second : shade = 2
  · exact .inr (.inl second)
  by_cases third : shade = 3
  · exact .inr (.inr (.inl third))
  have other : shade.toNat ≠ 1 ∧ shade.toNat ≠ 2 ∧ shade.toNat ≠ 3 :=
    ⟨fun same => first (UInt8.toNat_inj.1 same), fun same => second (UInt8.toNat_inj.1 same),
      fun same => third (UInt8.toNat_inj.1 same)⟩
  refine .inr (.inr (.inr ⟨?_, ?_, ?_⟩))
  · rw [argb, if_neg first, if_neg second, if_neg third]
  · rw [colour?]
    split
    · rfl
    · rename_i some
      have positive : shade.toNat ≠ 0 := fun same => some (UInt8.toNat_inj.1 same)
      exact Vector.getElem?_eq_none (by omega)
  · rw [glyph]
    split
    next same => exact absurd same other.1
    next same => exact absurd same other.2.1
    next same => exact absurd same other.2.2
    next => rfl

theorem argb_eq_word (shade : UInt8) : argb palette shade = word shade := by
  rcases cases_colour shade with rfl | rfl | rfl | ⟨transparent, colourless, -⟩
  · decide
  · decide
  · decide
  · rw [transparent, word, colourless]

theorem pixelBytes_word (shade : UInt8) : Png.pixelBytes (word shade) = bytes shade := by
  rcases cases_colour shade with rfl | rfl | rfl | ⟨-, colourless, -⟩
  · decide
  · decide
  · decide
  · rw [word, bytes, colourless]
    decide

theorem pixelChar_word (shade : UInt8) : pixelChar (word shade) = glyph shade := by
  rcases cases_colour shade with rfl | rfl | rfl | ⟨-, colourless, blank⟩
  · decide
  · decide
  · decide
  · rw [word, colourless, blank]
    decide

/-- How shades look in print and in a file. -/
def looks : List (Char × List UInt8) :=
  [('.', [187, 193, 203, 255]), ('+', [96, 110, 124, 255]), ('#', [47, 57, 68, 255]), (' ', [0, 0, 0, 0])]

theorem mem_looks (shade : UInt8) : (glyph shade, bytes shade) ∈ looks := by
  rcases cases_colour shade with rfl | rfl | rfl | ⟨-, colourless, blank⟩
  · decide
  · decide
  · decide
  · rw [bytes, colourless, blank]
    decide

/-- Print and file tell the same shades apart. -/
theorem glyph_eq_iff (v w : UInt8) : glyph v = glyph w ↔ bytes v = bytes w := by
  have apart : ∀ a ∈ looks, ∀ b ∈ looks, (a.1 = b.1 ↔ a.2 = b.2) := by decide
  exact apart _ (mem_looks v) _ (mem_looks w)

end Shade

namespace Screen

/-- The entries of a picture by rows. -/
def grid {α : Type} (picture : Vector α 512) : List (List α) :=
  List.ofFn fun y : Fin 16 => List.ofFn fun x : Fin 32 => picture[x.val + 32 * y.val]

theorem length_rows (pixels : Vector UInt32 512) : (rows pixels).length = height := by
  rw [rows, List.length_map, List.length_range]

theorem length_of_mem_rows {pixels : Vector UInt32 512} {row : List UInt32} (member : row ∈ rows pixels) :
    row.length = width := by
  obtain ⟨y, below, rfl⟩ := List.mem_map.1 member
  have below : y < 16 := List.mem_range.1 below
  rw [List.length_take, List.length_drop, Vector.length_toList]
  change min 32 (512 - 32 * y) = 32
  omega

theorem rows_eq_grid (pixels : Vector UInt32 512) : rows pixels = grid pixels := by
  refine List.ext_getElem ?_ fun y first second => ?_
  · rw [length_rows, grid, List.length_ofFn, height]
  · have below : y < 16 := by rwa [length_rows] at first
    refine List.ext_getElem ?_ fun x inside within => ?_
    · rw [length_of_mem_rows (List.getElem_mem first)]
      simp only [grid, List.getElem_ofFn, List.length_ofFn, width]
    · simp only [rows, grid, width, List.getElem_map, List.getElem_range, List.getElem_take, List.getElem_drop,
        List.getElem_ofFn, Vector.getElem_toList, Nat.add_comm x]

theorem grid_map {α β : Type} (f : α → β) (picture : Vector α 512) :
    grid (picture.map f) = (grid picture).map fun row => row.map f := by
  simp only [grid, List.map_ofFn, Vector.getElem_map, Function.comp_def]

theorem grid_replicate {α : Type} (a : α) :
    grid (Vector.replicate 512 a) = List.replicate 16 (List.replicate 32 a) := by
  simp only [grid, Vector.getElem_replicate, List.ofFn_const]

/-- A list of which every entry is made into as many entries, at the place of one of them. -/
theorem take_drop_flatMap {α β : Type} {f : α → List β} {k : Nat} (uniform : ∀ a, (f a).length = k) {l : List α}
    {i : Nat} (bound : i < l.length) : ((l.flatMap f).drop (k * i)).take k = f l[i] := by
  induction l generalizing i with
  | nil => exact absurd bound (Nat.not_lt_zero i)
  | cons a l ih =>
    rw [List.flatMap_cons]
    cases i with
    | zero => exact List.take_left' (uniform a)
    | succ i =>
      rw [Nat.mul_succ, Nat.add_comm, ← List.drop_drop, List.drop_left' (uniform a)]
      exact ih (Nat.lt_of_succ_lt_succ bound)

/-- Every screen makes up a picture, with the bytes of each pixel in its place. -/
theorem exists_image (pixels : Vector UInt32 512) :
    ∃ image, image? pixels = some image ∧ image.width = 32 ∧ image.height = 16 ∧
      ∀ (x : Fin 32) (y : Fin 16), image.pixel x y = Png.pixelBytes pixels[x.val + 32 * y.val] := by
  have four (p : UInt32) : (Png.pixelBytes p).length = 4 := rfl
  have size : (pixels.toList.flatMap Png.pixelBytes).length = 2048 := by
    simp only [List.length_flatMap, four, List.map_const', List.sum_replicate_nat, Vector.length_toList]
  refine ⟨⟨32, 16, (pixels.toList.flatMap Png.pixelBytes).take 2048, List.length_take_of_le size.ge⟩,
    dif_pos size.ge, rfl, rfl, fun x y => ?_⟩
  have bound : x.val + 32 * y.val < pixels.toList.length := by
    rw [Vector.length_toList]
    omega
  change ((((pixels.toList.flatMap Png.pixelBytes).take 2048).drop (4 * (x.val + 32 * y.val))).take 4) = _
  rw [List.take_of_length_le size.le, take_drop_flatMap four bound, Vector.getElem_toList]

end Screen

/-! ### What is shown of video memory -/

theorem screenLines_of_video (video : Vector UInt8 512) :
    screenLines (video.map Shade.word) = (Screen.grid video).map fun row => String.ofList (row.map Shade.glyph) := by
  simp only [screenLines, Screen.rows_eq_grid, Screen.grid_map, List.map_map, Function.comp_def, Shade.pixelChar_word]

theorem Png.pixelBytes_of_video (video : Vector UInt8 512) (x : Fin 32) (y : Fin 16) :
    pixelBytes (video.map Shade.word)[x.val + 32 * y.val] = Shade.bytes video[x.val + 32 * y.val] := by
  rw [Vector.getElem_map, Shade.pixelBytes_word]

/-- A call on a running machine shows video memory as it finds it at the end. -/
theorem Console.pixels_of_update {σ : Type} [Store σ] {c after : Console σ} {elapsed : Duration} {input : Input}
    {out : Output} (running : c.rig.machine.running = true) (run : c.update elapsed input = some (out, after)) :
    out.pixels = after.rig.machine.video.map Shade.word ∧ after.screen.pixels = out.pixels ∧
      (c.isFull = false → after.screen.frames = c.screen.frames + 1) := by
  obtain ⟨due, s, -, ran⟩ := ran_of_update running run
  have words : argb palette = Shade.word := funext Shade.argb_eq_word
  rw [ran.pixels, ran.screen]
  refine ⟨?_, rfl, fun free => ?_⟩
  · rw [Screen.draw, words]
  · rw [isFull, running, Bool.true_and] at free
    exact Screen.frames_draw free _

namespace Arguments

variable {args : Arguments} {files : FileTree} {writer : ImageWriter}

/-- A run that prints its screen has come to the end of its frames. -/
theorem played_of_shown {pixels : Vector UInt32 512} {saved : Bool}
    (shown : (execute files args writer).ending = .shown pixels saved) : ∃ played, args.Played files played := by
  obtain ⟨source, store, elapsed, ready⟩ := ready_of_shown shown
  cases ended : Progress.checkedPlay args.presses elapsed args.frames.toNat 0 (args.start source store) with
  | error broken =>
    rw [ready.execute_of_broken ended] at shown
    cases shown
  | ok played => exact ⟨played, source, store, elapsed, ready, ended⟩

/-- A run prints its screen exactly if it comes to the end of its frames and one more picture can be counted. -/
theorem shown_iff :
    (∃ pixels saved, (execute files args writer).ending = .shown pixels saved) ↔
      (∃ played, args.Played files played) ∧ args.frames.toNat + 1 < UInt64.size := by
  have bound : args.frames.toNat < UInt64.size := args.frames.toNat_lt
  constructor
  · rintro ⟨pixels, saved, shown⟩
    obtain ⟨played, ended⟩ := played_of_shown shown
    refine ⟨⟨played, ended⟩, ?_⟩
    obtain ⟨out, final, -, -, -, -, concluded⟩ := ended.execute_eq
    by_contra last
    rw [concluded writer, if_pos (by omega)] at shown
    cases shown
  · rintro ⟨⟨played, ended⟩, room⟩
    obtain ⟨out, final, -, -, -, -, concluded⟩ := ended.execute_eq
    rw [concluded writer, if_neg room.ne]
    exact ⟨_, _, rfl⟩

/-- What is handed on to be saved is the picture of the screen, and what is printed does not depend on what becomes of
it. -/
theorem conclude_of_asked {path : String} (asked : args.picture = some path) {out : Output} {image : Image}
    (made : Screen.image? out.pixels = some image) (final : Console AnyStore) :
    let saving := writer.save (final.rig.host.store.files files) path image
    (args.conclude writer files out final).files = saving.1 ∧
      (args.conclude writer files out final).ending = .shown out.pixels saving.2 := by
  rw [conclude, savePicture, asked, made]
  exact ⟨rfl, rfl⟩

end Arguments

/-- Whatever is in video memory when a call on a running machine ends is what its pixels show. What a run prints and the
picture that it hands on to be saved show video memory as the frames of the run have left it, at which the last call
finds it. Where what saves pictures stores them, the picture is found in the file. Print and picture tell the same
shades apart. -/
theorem picture_of_video :
    (∀ (σ : Type) [Store σ] (c : Console σ) (elapsed : Duration) (input : Input), c.rig.machine.running = true →
      (c.checkedUpdate elapsed input = .ok none ↔ c.rig.machine.scheduler.advance elapsed = none) ∧
      (c.checkedUpdate elapsed input = .error .addOverflow ↔
        ∃ out after, c.update elapsed input = some (out, after) ∧
          (UInt64.size ≤ out.cycles ∨ c.screen.frames + 1 = UInt64.size)) ∧
      ∀ out after, c.checkedUpdate elapsed input = .ok (some (out, after)) →
        (∀ (x : Fin 32) (y : Fin 16),
          out.pixels[x.val + 32 * y.val] = Shade.word after.rig.machine.video[x.val + 32 * y.val]) ∧
        after.screen.pixels = out.pixels ∧ after.screen.frames = c.screen.frames + 1) ∧
    (∀ (files : FileTree) (args : Arguments) (writer : ImageWriter),
      (∃ pixels saved, (execute files args writer).ending = .shown pixels saved) ↔
        (∃ played, args.Played files played) ∧ args.frames.toNat + 1 < UInt64.size) ∧
    (∀ (files : FileTree) (args : Arguments) (played : Progress), args.Played files played →
      args.frames.toNat + 1 < UInt64.size →
      ∃ out final image,
        (played.note (.ran args.frames.toNat played.cycles)).console.checkedUpdate .zero {} =
          .ok (some (out, final)) ∧
        final.rig.machine.video = played.console.rig.machine.video ∧
        final.rig.host.store = played.console.rig.host.store ∧
        image.width = 32 ∧ image.height = 16 ∧
        (∀ (x : Fin 32) (y : Fin 16),
          image.pixel x y = Shade.bytes final.rig.machine.video[x.val + 32 * y.val]) ∧
        ∀ writer : ImageWriter,
          let conduct := execute files args writer
          conduct.lines =
            ((Screen.grid final.rig.machine.video).map fun row => String.ofList (row.map Shade.glyph)) ∧
          conduct.journal = final.rig.host.journal ∧
          (args.picture = none → conduct.files = final.rig.host.store.files files) ∧
          ∀ path, args.picture = some path →
            let saving := writer.save (final.rig.host.store.files files) path image
            conduct.files = saving.1 ∧ conduct.ending = .shown out.pixels saving.2 ∧
            ∀ read?, writer.Stores read? → saving.2 = true →
              ∃ content, conduct.files.read path = .ok content ∧ read? content = some image) ∧
    ∀ v w : UInt8, Shade.glyph v = Shade.glyph w ↔ Shade.bytes v = Shade.bytes w := by
  refine ⟨fun σ _ c elapsed input running =>
      ⟨Console.checkedUpdate_eq_none_iff running, ?_, fun out after checked => ?_⟩,
    fun files args writer => Arguments.shown_iff, fun files args played ended room => ?_, Shade.glyph_eq_iff⟩
  · rw [Console.checkedUpdate_eq_error_iff, Console.isFull_iff running]
  · obtain ⟨run, -, free⟩ := Console.checkedUpdate_eq_some_iff.1 checked
    obtain ⟨pixels, same, counted⟩ := Console.pixels_of_update running run
    refine ⟨fun x y => ?_, same, counted free⟩
    simp only [pixels, Vector.getElem_map]
  · obtain ⟨out, final, run, checked, video, kept, concluded⟩ := ended.execute_eq
    obtain ⟨pixels, -⟩ := Console.pixels_of_update (c := (played.note _).console) ended.underWay.1.running run
    obtain ⟨image, made, width, height, bytes⟩ := Screen.exists_image out.pixels
    rw [if_neg room.ne] at checked
    simp only [if_neg room.ne] at concluded
    refine ⟨out, final, image, checked, video, kept, width, height, fun x y => ?_, fun writer => ?_⟩
    · rw [bytes, pixels, Png.pixelBytes_of_video]
    · dsimp only
      rw [concluded writer]
      refine ⟨?_, rfl, fun none => ?_, fun path asked => ?_⟩
      · rw [← screenLines_of_video, ← pixels]
        rfl
      · rw [Arguments.conclude, Arguments.savePicture, none]
      · obtain ⟨written, ending⟩ := Arguments.conclude_of_asked asked made final
        refine ⟨written, ending, fun read? stores saved => ?_⟩
        rw [written]
        exact stores _ _ _ _ (Prod.ext rfl saved)

/-- A console shows a pixel that holds a shade and one that holds no shade. A run of no frames prints an empty screen
and saves it in a file. -/
theorem picture_of_video_poked :
    let m := (Machine.ofProgram (.single .btn)).writeIn .video 33 [2, 7]
    let c : Console Shelf := { rig := ⟨m, ⟨.empty, #[]⟩⟩ }
    let files : FileTree := ⟨[(["prog.tg"], .file "BTND 0".toUTF8)], []⟩
    let args : Arguments := ⟨"prog.tg", 0, Arguments.defaultRate, none, none, [], some "out.png"⟩
    (∃ out after, c.checkedUpdate .zero {} = .ok (some (out, after)) ∧ out.pixels[33] = 0xFF606E7C ∧
      out.pixels[34] = 0 ∧ after.screen.frames = 1) ∧
    (execute files args).lines = List.replicate 16 (String.ofList (List.replicate 32 ' ')) ∧
    ∃ content image, (execute files args).files.read "out.png" = .ok content ∧ Png.decode? content = some image ∧
      ∀ (x : Fin 32) (y : Fin 16), image.pixel x y = [0, 0, 0, 0] := by
  intro m c files args
  obtain ⟨shown, -, ends, -⟩ := picture_of_video
  constructor
  · have running : c.rig.machine.running = true := rfl
    obtain ⟨s, advanced⟩ := Scheduler.advance_fresh_zero
    have advanced : c.rig.machine.scheduler.advance .zero = some (0, s) := advanced
    have first : c.rig.machine.video[33] = 2 := by decide +kernel
    have second : c.rig.machine.video[34] = 7 := by decide +kernel
    have blank : c.screen.frames = 0 := rfl
    clear_value c
    obtain ⟨out, after, run, ran⟩ := Console.update_of_running running advanced {}
    have few : out.cycles < UInt64.size := Nat.lt_of_le_of_lt ran.most (by decide)
    have free : c.isFull = false := by
      rw [← Bool.not_eq_true, Console.isFull_iff running, blank]
      decide
    have checked : c.checkedUpdate .zero {} = .ok (some (out, after)) :=
      Console.checkedUpdate_eq_some_iff.2 ⟨run, few, free⟩
    obtain ⟨video, -⟩ := Console.still_of_update running advanced run
    obtain ⟨pixels, -, frames⟩ := (shown Shelf c .zero {} running).2.2 out after checked
    have left := pixels 1 1
    have right := pixels 2 1
    rw [video] at left right
    refine ⟨out, after, checked, left.trans ?_, right.trans ?_, frames.trans (congrArg (· + 1) blank)⟩
    · exact (congrArg Shade.word first).trans (by decide)
    · exact (congrArg Shade.word second).trans (by decide)
  · have read : files.read "prog.tg" = .ok "BTND 0".toUTF8 := rfl
    have ready : args.Ready files "BTND 0" (.shelf .empty) ⟨0, 33333333⟩ :=
      ⟨Arguments.isPositive_defaultRate, Arguments.readSource_of_read read, rfl, Arguments.period_defaultRate⟩
    have blank : (args.start "BTND 0" (.shelf .empty)).console.rig.machine.video = Vector.replicate 512 0 := by
      refine Vector.ext fun i _ => ?_
      rw [Machine.video, Vector.getElem_ofFn, Vector.getElem_replicate, Bank.getIn]
      split
      · exact Bank.get_zero _
      · rfl
    obtain ⟨out, final, image, -, video, store, width, height, bytes, saves⟩ :=
      ends files args (args.start "BTND 0" (.shelf .empty)) ⟨_, _, _, ready, rfl⟩ (by decide)
    obtain ⟨lines, -, -, picture⟩ := saves Png.writer
    obtain ⟨-, -, found⟩ := picture "out.png" rfl
    rw [video, blank] at lines bytes
    have black (x : Fin 32) (y : Fin 16) : image.pixel x y = [0, 0, 0, 0] := by
      rw [bytes, Vector.getElem_replicate]
      decide
    have saved : (Png.writer.save (final.rig.host.store.files files) "out.png" image).2 = true := by
      obtain ⟨content, encoded⟩ : ∃ content, Png.encode? image = some content := by
        have size := image.size
        rw [Png.encode?, if_pos]
        · exact ⟨_, rfl⟩
        · rw [width, height] at size ⊢
          exact ⟨List.ne_nil_of_length_pos (size ▸ by decide), by decide⟩
      obtain ⟨tree, written⟩ : ∃ tree, files.write "out.png" content = .ok tree := ⟨_, rfl⟩
      have named : Png.isFileName "out.png" = true := rfl
      have same : final.rig.host.store.files files = files := by
        rw [store]
        rfl
      rw [same, Png.writer]
      dsimp only
      rw [if_pos named, encoded]
      dsimp only
      rw [written]
    obtain ⟨content, kept, decoded⟩ := found Png.decode? Png.stores saved
    rw [Screen.grid_replicate, List.map_replicate, List.map_replicate] at lines
    exact ⟨lines, content, image, kept, decoded, black⟩

end PocketConsole
