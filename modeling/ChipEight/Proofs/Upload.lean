import ChipEight.Desktop.Display
import ChipEight.Proofs.Bare.Painting
import ChipEight.Proofs.Bare.Texture

/-!
What the upload of a frame leaves on a surface. The rows of the picture lie without gaps, those
of the surface at a distance of their own that may be longer. Copying one row after the other
puts the three bytes of each pixel to their places, because the row of one pixel ends before the
next row begins, and changes nothing else. So whatever has been painted, and however long the
rows of the surface are, the window system is told to show that frame and no byte outside its
rows has been touched.
-/
namespace ChipEight.Desktop

namespace Surface

def place (s : Surface) (x y channel : Nat) : Nat := y * s.pitch + 3 * x + channel

/-- A pixel of a row comes before the next row. -/
theorem Fits.place_lt {s : Surface} {f : Frame} (h : s.Fits f) {x y channel : Nat}
    (hx : x < f.width) (hchannel : channel < 3) :
    s.place x y channel < (y + 1) * s.pitch := by
  have hpitch := h.pitch
  rw [place, Nat.succ_mul y]
  omega

end Surface

namespace Texture

open Surface

section Row

variable {f : Frame}

theorem getElem?_flatMap_replicate {α β : Type} (items : List α) (g : α → β) {n k : Nat}
    (hk : k < n) (j : Nat) :
    (items.flatMap fun a => List.replicate n (g a))[n * j + k]? = items[j]?.map g := by
  induction items generalizing j with
  | nil => rfl
  | cons a rest ih =>
    rw [List.flatMap_cons]
    cases j with
    | zero =>
      rw [Nat.mul_zero, Nat.zero_add, List.getElem?_append_left (by rwa [List.length_replicate]),
        List.getElem?_replicate_of_lt hk]
      rfl
    | succ j =>
      have hnext : n * (j + 1) + k = n + (n * j + k) := by
        rw [Nat.mul_succ]
        omega
      rw [hnext, List.getElem?_append_right (by rw [List.length_replicate]; omega),
        List.length_replicate, Nat.add_sub_cancel_left, ih]
      rfl

/-- The bytes of a pixel in the row of the picture. -/
theorem getElem?_pictureRow {x y channel : Nat} (hx : x < f.width) (hy : y < f.height)
    (hchannel : channel < 3) :
    (pictureRow f y)[3 * x + channel]? = some (intensity (f.lit x y)) := by
  have hcell : f.cell x y = y * f.width + x := by
    rw [Frame.cell, Nat.mod_eq_of_lt hx, Nat.mod_eq_of_lt hy]
  have hplace : y * (3 * f.width) + (3 * x + channel) = 3 * f.cell x y + channel := by
    rw [hcell, Nat.mul_add, Nat.mul_left_comm]
    omega
  have hpixel : f.pixels.toList[f.cell x y]? = some (f.lit x y) := by
    rw [Array.getElem?_toList]
    exact Array.getElem?_eq_getElem (f.cell_lt x y)
  rw [pictureRow_eq, List.getElem?_take_of_lt (by omega), List.getElem?_drop, hplace,
    toList_picture, getElem?_flatMap_replicate _ _ hchannel, hpixel]
  rfl

end Row

section Copy

variable {bytes : Array UInt8} {place k : Nat} {source : List UInt8}

theorem getElem?_copyTo_of_lt (hfits : place + source.length ≤ bytes.size)
    (hk : k < source.length) :
    (copyTo bytes place source)[place + k]? = source[k]? := by
  have hplace : place + k < bytes.size := by omega
  rw [Array.getElem?_eq_getElem (by rwa [size_copyTo]), getElem_copyTo hplace,
    if_pos (Nat.le_add_right ..), Nat.add_sub_cancel_left, List.getElem?_eq_getElem hk]
  rfl

theorem getElem?_copyTo_of_outside (h : k < place ∨ place + source.length ≤ k) :
    (copyTo bytes place source)[k]? = bytes[k]? := by
  by_cases hk : k < bytes.size
  · have hsame :
        (if place ≤ k then source[k - place]?.getD bytes[k] else bytes[k]) = bytes[k] := by
      rcases h with hbefore | hbehind
      · exact if_neg (Nat.not_le_of_lt hbefore)
      · rw [List.getElem?_eq_none (by omega)]
        exact ite_self _
    rw [Array.getElem?_eq_getElem (by rwa [size_copyTo]), getElem_copyTo hk, hsame,
      Array.getElem?_eq_getElem hk]
  · have hsize := size_copyTo bytes place source
    rw [Array.getElem?_eq_none (by omega), Array.getElem?_eq_none (by omega)]

end Copy

/-- The first rows of the frame have been copied onto the surface: its bytes are those of the
pixels at their places, and the ones from before everywhere else. -/
structure ShowsRows (f : Frame) (s : Surface) (rows : Nat) (t : Surface) : Prop where
  pitch_eq : t.pitch = s.pitch
  size_eq : t.bytes.size = s.bytes.size
  pixel : ∀ x < f.width, ∀ y < rows, ∀ channel < 3,
    t.bytes[s.place x y channel]? = some (intensity (f.lit x y))
  rest : ∀ k, (∀ x < f.width, ∀ y < rows, ∀ channel < 3, k ≠ s.place x y channel) →
    t.bytes[k]? = s.bytes[k]?

namespace ShowsRows

variable {f : Frame} {s t : Surface} {rows : Nat}

theorem refl (f : Frame) (s : Surface) : ShowsRows f s 0 s :=
  ⟨rfl, rfl, fun _ _ _ hy => absurd hy (Nat.not_lt_zero _), fun _ _ => rfl⟩

/-- One more row: it begins behind all the others. -/
theorem copyRow (h : ShowsRows f s rows t) (hfits : s.Fits f) (hrows : rows < f.height) :
    ShowsRows f s (rows + 1)
      { t with bytes := copyTo t.bytes (rows * s.pitch) (pictureRow f rows) } where
  pitch_eq := h.pitch_eq
  size_eq := (size_copyTo ..).trans h.size_eq
  pixel x hx y hy channel hchannel := by
    have hline := length_pictureRow hrows
    rcases Nat.lt_succ_iff_lt_or_eq.mp hy with hbefore | rfl
    · have hend : s.place x y channel < rows * s.pitch :=
        Nat.lt_of_lt_of_le (hfits.place_lt hx hchannel) (Nat.mul_le_mul_right _ hbefore)
      rw [getElem?_copyTo_of_outside (.inl hend)]
      exact h.pixel x hx y hbefore channel hchannel
    · have hroom : y * s.pitch + (pictureRow f y).length ≤ t.bytes.size := by
        rw [hline, h.size_eq]
        exact hfits.row_le hrows
      rw [Surface.place, Nat.add_assoc, getElem?_copyTo_of_lt hroom (by omega)]
      exact getElem?_pictureRow hx hrows hchannel
  rest k hk := by
    have hline := length_pictureRow hrows
    have hearlier : ∀ x < f.width, ∀ y < rows, ∀ channel < 3, k ≠ s.place x y channel :=
      fun x hx y hy => hk x hx y (Nat.lt_succ_of_lt hy)
    have houtside : k < rows * s.pitch ∨ rows * s.pitch + (pictureRow f rows).length ≤ k := by
      rw [hline]
      apply Decidable.byContradiction
      intro hwithin
      have hplace : k = s.place ((k - rows * s.pitch) / 3) rows ((k - rows * s.pitch) % 3) := by
        rw [Surface.place]
        omega
      exact hk _ (by omega) rows (Nat.lt_succ_self rows) _ (Nat.mod_lt _ (by decide)) hplace
    rw [getElem?_copyTo_of_outside houtside]
    exact h.rest k hearlier

end ShowsRows

def uploadRows (f : Frame) (s : Surface) (rows : Nat) : Surface :=
  { s with
    bytes := (List.range rows).foldl
      (fun bytes y => copyTo bytes (y * s.pitch) (pictureRow f y)) s.bytes }

theorem showsRows_uploadRows {f : Frame} {s : Surface} (hfits : s.Fits f) {rows : Nat}
    (hrows : rows ≤ f.height) : ShowsRows f s rows (uploadRows f s rows) := by
  induction rows with
  | zero => exact .refl f s
  | succ rows ih =>
    rw [uploadRows, List.range_succ, List.foldl_append]
    exact (ih (Nat.le_of_succ_le hrows)).copyRow hfits hrows

theorem showsRows_upload {f : Frame} {s : Surface} (hfits : s.Fits f) :
    ShowsRows f s f.height (upload f s) :=
  showsRows_uploadRows hfits (Nat.le_refl _)

end Texture

namespace Host

def requested (h : Host) (request : Request) : Host :=
  { h with requests := h.requests ++ [request] }

section Run

variable {ε σ α β : Type} {h i : Host} {s t : σ}

theorem run_bind_of_ok {work : ExceptT ε (StateM σ) α} {next : α → ExceptT ε (StateM σ) β} {a : α}
    (hwork : work.run s = (.ok a, t)) : (work >>= next).run s = (next a).run t := by
  rw [ExceptT.run_bind, stateM_bind_apply, hwork]

theorem run_bind_of_error {work : ExceptT ε (StateM σ) α} {next : α → ExceptT ε (StateM σ) β}
    {cause : ε} (hwork : work.run s = (.error cause, t)) :
    (work >>= next).run s = (.error cause, t) := by
  rw [ExceptT.run_bind, stateM_bind_apply, hwork]
  rfl

theorem run_ask (h : Host) (request : Request) :
    (ask request).run h = (.ok (), h.requested request) := rfl

theorem run_allow (h : Host) (duty : Duty) :
    (allow duty).run h = ((h.refusal duty).elim (.ok ()) .error, h) := by
  have hget : (get : HostM Host).run h = (.ok h, h) := rfl
  rw [allow, run_bind_of_ok hget]
  cases h.refusal duty <;> rfl

theorem run_demand (h : Host) (duty : Duty) (request : Request) :
    (demand duty request).run h =
      ((h.refusal duty).elim (.ok ()) .error, h.requested request) := by
  rw [demand, run_bind_of_ok (run_ask h request)]
  exact run_allow (h.requested request) duty

theorem run_creating_of_ok {work : HostM Unit} (hwork : work.run h = (.ok (), i)) :
    (creating work).run h = (.ok (), i) := by
  rw [creating, ExceptT.run_tryCatch, stateM_bind_apply, hwork]
  rfl

end Run
end Host

namespace Display

open Host

/-- What follows the upload only adds requests, even if the picture cannot be copied to
the window. -/
theorem requests_show (h : Host) :
    ∃ rest, ((demand .copy .copy >>= fun _ => ask .present).run h).2.requests =
      h.requests ++ rest := by
  have hcopy := run_demand h .copy .copy
  cases hrefusal : h.refusal .copy with
  | none =>
    rw [hrefusal] at hcopy
    rw [run_bind_of_ok hcopy]
    exact ⟨[.copy, .present], List.append_assoc ..⟩
  | some cause =>
    rw [hrefusal] at hcopy
    rw [run_bind_of_error hcopy]
    exact ⟨[.copy], rfl⟩

/-- A frame is uploaded to the surface that the host hands out. -/
theorem requests_render {h : Host} (f : Frame) (htexture : h.refusal .texture = none)
    (hlock : h.refusal .textureLock = none) :
    ∃ rest, ((render f).run h).2.requests = h.requests ++
      .texture (UInt32.ofNat f.width) (UInt32.ofNat f.height) ::
      .pixels f.width f.height (Texture.upload f (h.surface f.width f.height)) :: rest := by
  let texture : Request := .texture (UInt32.ofNat f.width) (UInt32.ofNat f.height)
  let pixels : Request := .pixels f.width f.height (Texture.upload f (h.surface f.width f.height))
  let created := h.requested texture
  have hcreate : (creating (demand .texture texture)).run h = (.ok (), created) :=
    run_creating_of_ok (by rw [run_demand, htexture]; rfl)
  have hallow : (allow .textureLock).run created = (.ok (), created) := by
    rw [run_allow, show created.refusal .textureLock = none from hlock]
    rfl
  have hget : (get : HostM Host).run created = (.ok created, created) := rfl
  have hrest : (render f).run h =
      (demand .copy .copy >>= fun _ => ask .present).run (created.requested pixels) := by
    rw [render, run_bind_of_ok hcreate, run_bind_of_ok hallow, run_bind_of_ok hget]
    exact run_bind_of_ok (run_ask created pixels)
  obtain ⟨rest, hrequests⟩ := requests_show (created.requested pixels)
  refine ⟨rest, ?_⟩
  rw [hrest, hrequests]
  simp [created, requested, texture, pixels]

/-- A frame that has been painted in any way, and the bytes that the window system hands out for
its picture, in rows that are long enough and perhaps longer. The intensities are bytes, three
for each pixel; the picture has one line for each row; and no line reaches past the bytes that
it is copied to. After that the three bytes of a pixel are all 255 or all 0, the ones between
the rows and behind them are as they were, and these are the bytes that the window system is
told to show. -/
theorem render_shows_painted_frame {width height : Nat} (hwidth : 1 ≤ width)
    (hheight : 1 ≤ height) {paints : List Bare.Paint} {painted : Bare.Frame}
    (hpainted : Bare.Frame.painted width height paints = .ok painted) {pitch : Nat}
    (buffer : Bare.Slice) (hpitch : 3 * width ≤ pitch)
    (hroom : pitch * height ≤ buffer.bytes.size) :
    ∃ (f : Frame) (picture : List UInt8) (lines : List (List UInt8)) (shown : Array UInt8),
      (f.bare = painted ∧ f.width = width ∧ f.height = height) ∧
      (Bare.Texture.picture painted = .ok picture ∧ (Texture.picture f).toList = picture ∧
        picture.length = 3 * width * height) ∧
      (Bare.Texture.lines painted = .ok lines ∧ lines.length = height) ∧
      (Bare.Texture.upload painted pitch buffer.bytes = .ok shown ∧
        shown.size = buffer.bytes.size) ∧
      (∀ x < width, ∀ y < height, ∀ channel < 3,
        shown[y * pitch + 3 * x + channel]? = some (if f.lit x y then 255 else 0)) ∧
      (∀ k, (∀ x < width, ∀ y < height, ∀ channel < 3, k ≠ y * pitch + 3 * x + channel) →
        shown[k]? = buffer.bytes[k]?) ∧
      ∀ host : Host, host.refusal .texture = none → host.refusal .textureLock = none →
        host.surface width height = ⟨pitch, buffer.bytes⟩ →
        ∃ rest, ((render f).run host).2.requests = host.requests ++
          .texture (UInt32.ofNat width) (UInt32.ofNat height) ::
          .pixels width height ⟨pitch, shown⟩ :: rest := by
  have hbinary := Bare.Frame.Binary.painted hpainted
  rw [Nat.max_eq_left hwidth, Nat.max_eq_left hheight] at hbinary
  obtain ⟨f, rfl, rfl, rfl⟩ := Frame.exists_bare hwidth hheight hbinary
  let s : Surface := ⟨pitch, buffer.bytes⟩
  have hfits : s.Fits f := ⟨hpitch, hroom⟩
  have hpicture := Nat.le_trans hfits.picture_le buffer.size_le
  have hshows := Texture.showsRows_upload hfits
  refine ⟨f, _, _, (Texture.upload f s).bytes, ⟨rfl, rfl, rfl⟩,
    ⟨Texture.picture_bare hpicture, rfl, Texture.length_picture f⟩,
    ⟨Texture.lines_bare hpicture, by rw [List.length_map, List.length_range]⟩,
    ⟨Texture.upload_bare hfits, hshows.size_eq⟩, hshows.pixel, hshows.rest, ?_⟩
  intro host htexture hlock hsurface
  have hrequests := requests_render f htexture hlock
  rw [hsurface] at hrequests
  exact hrequests

/-- A sprite is drawn, shown and cleared, and another one is drawn around both edges of a frame of
three columns. The rows of the surface have two more bytes than they need, and there is one byte
behind them. -/
theorem render_shows_painted_frame_between_padding :
    let paints : List Bare.Paint :=
      [.draw 0 0 [0xFF], .show, .clear, .draw 2 1 [0xC0, 0x80]]
    let painted : Bare.Frame := ⟨3, 2, #[0, 0, 1, 1, 0, 1], true⟩
    let bytes : Array UInt8 := Array.replicate 23 7
    let shown : Array UInt8 := #[0, 0, 0, 0, 0, 0, 255, 255, 255, 7, 7,
      255, 255, 255, 0, 0, 0, 255, 255, 255, 7, 7, 7]
    Bare.Frame.painted 3 2 paints = .ok painted ∧ (3 * 3 ≤ 11 ∧ 11 * 2 ≤ bytes.size) ∧
      Bare.Texture.upload painted 11 bytes = .ok shown ∧
      ∃ f : Frame, f.bare = painted ∧ (Texture.picture f).size = 18 ∧
        ∀ host : Host, host.refusal .texture = none → host.refusal .textureLock = none →
          host.surface 3 2 = ⟨11, bytes⟩ →
          ∃ rest, ((render f).run host).2.requests =
            host.requests ++ .texture 3 2 :: .pixels 3 2 ⟨11, shown⟩ :: rest := by
  intro paints painted bytes shown
  have hpainted : Bare.Frame.painted 3 2 paints = .ok painted := by decide +kernel
  have hupload : Bare.Texture.upload painted 11 bytes = .ok shown := by decide +kernel
  obtain ⟨f, picture, -, shown', ⟨hbare, -⟩, ⟨-, hpicture, hlength⟩, -, ⟨hupload', -⟩, -, -,
      hrender⟩ :=
    render_shows_painted_frame (by decide) (by decide) hpainted ⟨bytes, by decide⟩
      (show 3 * 3 ≤ 11 by decide) (by decide)
  have hshown : shown' = shown := Except.ok.inj (hupload'.symm.trans hupload)
  subst hshown
  refine ⟨hpainted, by decide, hupload, f, hbare, ?_, hrender⟩
  rw [← Array.length_toList, hpicture, hlength]

end Display
end ChipEight.Desktop
