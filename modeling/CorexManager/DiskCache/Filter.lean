import CorexManager.DiskCache.Headers
import CorexManager.DiskCache.Slots

/-!
# The filter of the disk cache

`DiskCacheStoreFilter` of `disk_cache/src/lib.rs` takes a response as it goes by, in callbacks that
streams make in any order among each other, and stores it under the key of its request.

* `StoreFilter.httpHeaders`, `StoreFilter.httpPayload`, `StoreFilter.httpEnd` — the callbacks.
* `seen` — what a stream has let go by, over a run.
* `served_from_transfer` — what is served for a request went by in answer to a request with its key.
-/

namespace CorexManager.DiskCache

open Data (Text)
open Rust (asBytes toAsciiLowercase asBytes_injective)
open Transition

/-! ### Keys -/

/-- `extract_header` -/
def extractHeader (rawHdrs name : Text) : Text :=
  ((Rust.lines rawHdrs).findSome? fun line =>
    (Rust.splitOnce ':' line).bind fun (hdrName, value) =>
      if toAsciiLowercase (Rust.trim hdrName) = toAsciiLowercase name then some (Rust.trim value)
      else none).getD []

/-- What `compute_cache_key` reads of a request. -/
structure Request where
  method : Text
  path : Text
  rawHdrs : Text

namespace Request

variable (q : Request)

def host : Text := extractHeader q.rawHdrs "host".toList

/-- `accept_variant` -/
def acceptVariant : Text :=
  if Rust.contains (toAsciiLowercase (extractHeader q.rawHdrs "accept".toList)) "image/webp".toList then
    "webp".toList
  else []

/-- `compute_cache_key` -/
def cacheKey : List UInt8 :=
  asBytes (q.method ++ '|' :: q.host ++ '|' :: q.path ++ '|' :: q.acceptVariant)

/-- The method and the host have no separator in them. -/
def Plain : Prop := '|' ∉ q.method ∧ '|' ∉ q.host

end Request

/-- What the filter reads of a response. -/
structure Response where
  status : UInt16
  rawHdrs : Text
  headers : Headers
  /-- The first `Content-Length`, and 0 if there is none; nothing if it cannot be converted. -/
  contentLength : Option Nat

/-- `ct` -/
def Response.contentType (r : Response) : Text :=
  toAsciiLowercase (extractHeader r.rawHdrs "content-type".toList)

/-- A response that is stored. -/
structure Response.Cacheable (g : Geometry) (r : Response) : Prop where
  ok : r.status = 200
  image : "image/".toList <+: r.contentType
  length : ∃ n, r.contentLength = some n ∧ n ≤ g.slotDataSize

/-! ### The filter -/

/-- `DiskCacheStoreFilter` -/
structure StoreFilter where
  active : Bool := false
  bodyBuf : List UInt8 := []
  status : UInt16 := 0
  headers : List UInt8 := []
  key : List UInt8 := []

namespace StoreFilter

variable (g : Geometry) (f : StoreFilter)

/-- `http_headers` of a new filter for a request; the key of some cannot be computed. -/
def ofRequest (request : Option Request) : StoreFilter :=
  { key := (request.map Request.cacheKey).getD [] }

/-- `http_headers` for a response. -/
def httpHeaders (r : Response) : StoreFilter :=
  if f.key = [] then { f with active := false }
  else if r.status ≠ 200 then { f with status := r.status, active := false }
  else if ¬ "image/".toList <+: r.contentType then { f with status := r.status, active := false }
  else
    match r.contentLength with
    -- the callback fails before it changes more
    | none => { f with status := r.status }
    | some n =>
        if n > g.slotDataSize then { f with status := r.status, active := false }
        else
          { f with
            status := r.status
            headers := serializeHeaders r.headers
            active := true
            bodyBuf := [] }

/-- `http_payload` -/
def httpPayload (chunk : List UInt8) : StoreFilter :=
  if f.active then { f with bodyBuf := f.bodyBuf ++ chunk } else f

/-- `http_end`: the filter after it, and what it stores. -/
def httpEnd (now : Nat) : StoreFilter × Option Put :=
  if f.active then
    ({ f with key := [], headers := [], bodyBuf := [] }, some ⟨f.key, f.status, f.headers, f.bodyBuf, now⟩)
  else (f, none)

end StoreFilter

/-! ### Streams -/

/-- The two directions of a stream. -/
inductive Channel where
  | request
  | response

inductive Event where
  /-- A new stream, with its request. -/
  | request (stream : Nat) (request : Option Request)
  | responseHeaders (stream : Nat) (response : Response)
  | payload (stream : Nat) (chunk : List UInt8)
  /-- The end of the message in one direction. -/
  | messageEnd (stream : Nat) (channel : Channel) (now : Nat)
  | reset
  | reopen

structure System where
  filters : Nat → StoreFilter
  cache : Cache

/-- No stream, and a new file. -/
def System.start (g : Geometry) : System := ⟨fun _ => {}, newFile g⟩

namespace System

variable (g : Geometry) (w : System)

def setFilter (stream : Nat) (f : StoreFilter) : System :=
  { w with filters := Function.update w.filters stream f }

/-- An operation on the file. -/
def operate (o : Operation) : System := { w with cache := (w.cache.step g o).getD w.cache }

def next : Event → System
  | .request stream request => w.setFilter stream (StoreFilter.ofRequest request)
  | .responseHeaders stream r => w.setFilter stream ((w.filters stream).httpHeaders g r)
  | .payload stream chunk => w.setFilter stream ((w.filters stream).httpPayload chunk)
  | .messageEnd stream _ now =>
      match (w.filters stream).httpEnd now with
      | (f, some p) => (w.setFilter stream f).operate g (.store p)
      | (f, none) => w.setFilter stream f
  | .reset => w.operate g .reset
  | .reopen => w.operate g .reopen

def step (e : Event) : Option System := some (w.next g e)

end System

/-! ### What a stream lets go by -/

/-- A request, and what has gone by in answer to it. -/
structure Transfer where
  request : Request
  response : Option Response := none
  /-- The body since the headers of the response. -/
  received : List UInt8 := []
  /-- The message in one direction has ended since the headers of the response. -/
  ended : Bool := false

/-- What has gone by after one more event; the headers of a response whose length cannot be converted
are not looked at. -/
def Transfer.next (stream : Nat) (t : Option Transfer) : Event → Option Transfer
  | .request s request => if s = stream then request.map fun q => { request := q } else t
  | .responseHeaders s r =>
      if s = stream ∧ r.contentLength.isSome then
        t.map fun t => { t with response := some r, received := [], ended := false }
      else t
  | .payload s chunk =>
      if s = stream then t.map fun t => { t with received := t.received ++ chunk } else t
  | .messageEnd s _ _ => if s = stream then t.map fun t => { t with ended := true } else t
  | .reset | .reopen => t

/-- What a stream has let go by. -/
def seen (stream : Nat) (events : List Event) : Option Transfer :=
  events.foldl (Transfer.next stream) none

/-- What was stored went by: the response was cacheable, and this is its body up to the first end of a
message after its headers. -/
structure FromTransfer (g : Geometry) (events : List Event) (p : Put) (t : Transfer) (r : Response) :
    Prop where
  ended : ∃ before stream channel after,
    events = before ++ .messageEnd stream channel p.now :: after ∧ seen stream before = some t
  response : t.response = some r
  cacheable : r.Cacheable g
  first : t.ended = false
  key : p.key = t.request.cacheKey
  stored : p.response = ⟨200, serializeHeaders r.headers, t.received⟩

/-- The filter of a stream has what went by. -/
structure Tracks (g : Geometry) (f : StoreFilter) (t : Option Transfer) : Prop where
  key : f.key ≠ [] → ∃ t', t = some t' ∧ f.key = t'.request.cacheKey
  body : f.key ≠ [] → f.active = true → ∃ t' r, t = some t' ∧ t'.response = some r ∧ r.Cacheable g ∧
    t'.ended = false ∧ f.status = 200 ∧ f.headers = serializeHeaders r.headers ∧ f.bodyBuf = t'.received

section Streams

variable {g : Geometry} {f : StoreFilter} {t : Option Transfer} {stream : Nat}

theorem tracks_inactive {key : List UInt8} (hkey : f.key = key)
    (h : key ≠ [] → ∃ t', t = some t' ∧ key = t'.request.cacheKey) (hactive : f.active = false) :
    Tracks g f t where
  key hne := by
    rw [hkey] at hne ⊢
    exact h hne
  body _ ha := by
    rw [hactive] at ha
    cases ha

theorem tracks_ofRequest (request : Option Request) :
    Tracks g (StoreFilter.ofRequest request) (request.map fun q => { request := q }) := by
  refine tracks_inactive rfl (fun hne => ?_) rfl
  cases request with
  | none => exact absurd rfl hne
  | some q => exact ⟨_, rfl, rfl⟩

theorem Tracks.httpHeaders (h : Tracks g f t) (r : Response) :
    Tracks g (f.httpHeaders g r) (Transfer.next stream t (.responseHeaders stream r)) := by
  have hnext : ∃ t', Transfer.next stream t (.responseHeaders stream r) = t' ∧
      ∀ u, t = some u → ∃ u', t' = some u' ∧ u'.request = u.request := by
    refine ⟨_, rfl, fun u hu => ?_⟩
    rw [Transfer.next, hu]
    split
    · exact ⟨_, rfl, rfl⟩
    · exact ⟨u, rfl, rfl⟩
  obtain ⟨t', ht', hrequest⟩ := hnext
  have hkey : f.key ≠ [] → ∃ u, t' = some u ∧ f.key = u.request.cacheKey := by
    intro hne
    obtain ⟨u, hu, hkey⟩ := h.key hne
    obtain ⟨u', hu', hsame⟩ := hrequest u hu
    exact ⟨u', hu', hsame ▸ hkey⟩
  rw [ht', StoreFilter.httpHeaders]
  split
  · exact tracks_inactive rfl hkey rfl
  rename_i hne
  split
  · exact tracks_inactive rfl hkey rfl
  rename_i hstatus
  split
  · exact tracks_inactive rfl hkey rfl
  rename_i himage
  rw [Transfer.next] at ht'
  have hstatus := not_not.mp hstatus
  split
  · rename_i hlength
    rw [hlength, if_neg (by simp)] at ht'
    subst ht'
    refine ⟨hkey, fun hne ha => ?_⟩
    obtain ⟨u, r', hu, hr', hcacheable, hended, -, hheaders, hbody⟩ := h.body hne ha
    exact ⟨u, r', hu, hr', hcacheable, hended, hstatus, hheaders, hbody⟩
  · rename_i n hlength
    split
    · exact tracks_inactive rfl hkey rfl
    · rename_i hle
      refine ⟨hkey, fun _ _ => ?_⟩
      obtain ⟨u, hu, -⟩ := h.key hne
      rw [hlength, hu, if_pos ⟨rfl, rfl⟩, Option.map_some] at ht'
      exact ⟨_, r, ht'.symm, rfl, ⟨hstatus, not_not.mp himage, n, hlength, Nat.le_of_not_lt hle⟩, rfl,
        hstatus, rfl, rfl⟩

theorem Tracks.httpPayload (h : Tracks g f t) (chunk : List UInt8) :
    Tracks g (f.httpPayload chunk) (Transfer.next stream t (.payload stream chunk)) := by
  have hkey : f.key ≠ [] → ∃ u, Transfer.next stream t (.payload stream chunk) = some u ∧
      f.key = u.request.cacheKey := by
    intro hne
    obtain ⟨u, hu, hkey⟩ := h.key hne
    rw [Transfer.next, if_pos rfl, hu]
    exact ⟨_, rfl, hkey⟩
  rw [StoreFilter.httpPayload]
  split
  · refine ⟨hkey, fun hne ha => ?_⟩
    obtain ⟨u, r, hu, hr, hcacheable, hended, hstatus, hheaders, hbody⟩ := h.body hne ha
    rw [Transfer.next, if_pos rfl, hu]
    exact ⟨_, r, rfl, hr, hcacheable, hended, hstatus, hheaders, congrArg (· ++ chunk) hbody⟩
  · rename_i ha
    exact tracks_inactive rfl hkey (Bool.eq_false_iff.mpr ha)

theorem Tracks.httpEnd (h : Tracks g f t) (channel : Channel) (now : Nat) :
    Tracks g (f.httpEnd now).1 (Transfer.next stream t (.messageEnd stream channel now)) := by
  rw [StoreFilter.httpEnd]
  split
  · exact ⟨fun hne => absurd rfl hne, fun hne => absurd rfl hne⟩
  · rename_i ha
    refine tracks_inactive rfl (fun hne => ?_) (Bool.eq_false_iff.mpr ha)
    obtain ⟨u, hu, hkey⟩ := h.key hne
    rw [Transfer.next, if_pos rfl, hu]
    exact ⟨_, rfl, hkey⟩

/-- Events of other streams change nothing. -/
theorem next_of_ne {s : Nat} (hs : s ≠ stream) :
    (∀ request, Transfer.next stream t (.request s request) = t) ∧
      (∀ r, Transfer.next stream t (.responseHeaders s r) = t) ∧
      (∀ chunk, Transfer.next stream t (.payload s chunk) = t) ∧
      ∀ channel now, Transfer.next stream t (.messageEnd s channel now) = t :=
  ⟨fun _ => if_neg hs, fun _ => if_neg fun h => hs h.1, fun _ => if_neg hs, fun _ _ => if_neg hs⟩

theorem seen_append (stream : Nat) (events : List Event) (e : Event) :
    seen stream (events ++ [e]) = Transfer.next stream (seen stream events) e := by
  rw [seen, List.foldl_append]
  rfl

theorem FromTransfer.append {events : List Event} {p : Put} {t : Transfer} {r : Response}
    (h : FromTransfer g events p t r) (e : Event) : FromTransfer g (events ++ [e]) p t r := by
  obtain ⟨before, s, channel, after, hevents, hseen⟩ := h.ended
  refine ⟨⟨before, s, channel, after ++ [e], ?_, hseen⟩, h.response, h.cacheable, h.first, h.key, h.stored⟩
  rw [hevents, List.append_assoc, List.cons_append]

end Streams

/-! ### Runs -/

/-- Every stream is tracked, and what the file represents under a key of a request went by. -/
structure Traced (g : Geometry) (events : List Event) (w : System) : Prop where
  tracks stream : Tracks g (w.filters stream) (seen stream events)
  represents : ∃ rec, Represents g w.cache rec ∧
    ∀ key p, rec key = some p → key ≠ [] → p.key = key ∧ ∃ t r, FromTransfer g events p t r

section Runs

variable {g : Geometry} {events : List Event} {w : System}

theorem step_isSome (c : Cache) (o : Operation) : ∃ c', c.step g o = some c' := by
  cases o with
  | store p =>
      rw [Cache.step]
      split <;> exact ⟨_, rfl⟩
  | reset => exact ⟨_, rfl⟩
  | reopen => exact ⟨_, rfl⟩

theorem Represents.operate {rec : Record} (h : Represents g w.cache rec) (o : Operation) :
    Represents g (w.operate g o).cache (rec.next g o) := by
  obtain ⟨c', hc'⟩ := step_isSome (g := g) w.cache o
  have hcache : (w.operate g o).cache = c' := by
    rw [System.operate, hc']
    rfl
  rw [hcache]
  exact h.step o hc'

/-- The filters after one more event. -/
theorem Traced.filters (h : Traced g events w) (e : Event) (stream : Nat) :
    Tracks g ((w.next g e).filters stream) (seen stream (events ++ [e])) := by
  have hset (f : StoreFilter) (s : Nat)
      (hother : s ≠ stream → Transfer.next stream (seen stream events) e = seen stream events)
      (hself : s = stream → Tracks g f (Transfer.next stream (seen stream events) e)) :
      Tracks g ((w.setFilter s f).filters stream) (seen stream (events ++ [e])) := by
    rw [seen_append, System.setFilter]
    by_cases hs : s = stream
    · rw [hs]
      dsimp only
      rw [Function.update_self]
      exact hself hs
    · dsimp only
      rw [Function.update_of_ne (Ne.symm hs), hother hs]
      exact h.tracks stream
  cases e with
  | request s request =>
      refine hset _ s (fun hs => (next_of_ne hs).1 request) fun hs => ?_
      rw [Transfer.next, if_pos hs]
      exact tracks_ofRequest request
  | responseHeaders s r =>
      refine hset _ s (fun hs => (next_of_ne hs).2.1 r) fun hs => ?_
      subst hs
      exact (h.tracks s).httpHeaders r
  | payload s chunk =>
      refine hset _ s (fun hs => (next_of_ne hs).2.2.1 chunk) fun hs => ?_
      subst hs
      exact (h.tracks s).httpPayload chunk
  | messageEnd s channel now =>
      have hfilters : (w.next g (.messageEnd s channel now)).filters =
          (w.setFilter s ((w.filters s).httpEnd now).1).filters := by
        rw [System.next]
        rcases (w.filters s).httpEnd now with ⟨f, _ | p⟩ <;> rfl
      rw [hfilters]
      refine hset _ s (fun hs => (next_of_ne hs).2.2.2 channel now) fun hs => ?_
      subst hs
      exact (h.tracks s).httpEnd channel now
  | reset =>
      rw [seen_append]
      exact h.tracks stream
  | reopen =>
      rw [seen_append]
      exact h.tracks stream

/-- What a filter stores under the key of a request went by. -/
theorem Traced.put (h : Traced g events w) {stream : Nat} (channel : Channel) {now : Nat}
    {f : StoreFilter} {p : Put} (hend : (w.filters stream).httpEnd now = (f, some p)) (hkey : p.key ≠ []) :
    ∃ t r, FromTransfer g (events ++ [.messageEnd stream channel now]) p t r := by
  rw [StoreFilter.httpEnd] at hend
  split at hend
  · rename_i ha
    obtain rfl := Option.some.inj (Prod.ext_iff.mp hend).2
    obtain ⟨u, hu, hcacheKey⟩ := (h.tracks stream).key hkey
    obtain ⟨t, r, ht, hr, hcacheable, hended, hstatus, hheaders, hbody⟩ := (h.tracks stream).body hkey ha
    obtain rfl := Option.some.inj (hu.symm.trans ht)
    refine ⟨u, r, ⟨events, stream, channel, [], rfl, ht⟩, hr, hcacheable, hended, hcacheKey, ?_⟩
    rw [Put.response]
    exact (CachedResponse.mk.injEq ..).mpr ⟨hstatus, hheaders, hbody⟩
  · cases hend

theorem Traced.next (h : Traced g events w) (e : Event) : Traced g (events ++ [e]) (w.next g e) := by
  refine ⟨h.filters e, ?_⟩
  obtain ⟨rec, hrec, hput⟩ := h.represents
  have hold (key : List UInt8) (p : Put) (hp : rec key = some p) (hkey : key ≠ []) :
      p.key = key ∧ ∃ t r, FromTransfer g (events ++ [e]) p t r := by
    obtain ⟨hsame, t, r, hfrom⟩ := hput key p hp hkey
    exact ⟨hsame, t, r, hfrom.append e⟩
  cases e with
  | request | responseHeaders | payload => exact ⟨rec, hrec, hold⟩
  | messageEnd s channel now =>
      rw [System.next]
      rcases hend : (w.filters s).httpEnd now with ⟨f, _ | p⟩
      · exact ⟨rec, hrec, hold⟩
      · refine ⟨_, @Represents.operate g (w.setFilter s f) rec hrec (.store p), fun key q hq hkey => ?_⟩
        rw [Record.next] at hq
        split at hq
        · by_cases hsame : key = p.key
          · rw [hsame, Function.update_self] at hq
            obtain rfl := Option.some.inj hq
            exact ⟨hsame.symm, h.put channel hend (hsame ▸ hkey)⟩
          · rw [Function.update_of_ne hsame] at hq
            exact hold key q hq hkey
        · exact hold key q hq hkey
  | reset =>
      exact ⟨_, hrec.operate .reset, fun key p hp => by cases hp⟩
  | reopen => exact ⟨_, hrec.operate .reopen, hold⟩

theorem traced_start : Traced g [] (System.start g) where
  tracks _ := ⟨fun hne => absurd rfl hne, fun hne => absurd rfl hne⟩
  represents := ⟨fun _ => none, represents_empty (fun _ => rfl) _, fun key p hp => by cases hp⟩

theorem traced_run (hrun : run (System.step g) (System.start g) events = some w) :
    Traced g events w := by
  induction events using List.reverseRecOn generalizing w with
  | nil => exact Option.some.inj hrun ▸ traced_start
  | append_singleton events e ih =>
      obtain ⟨v, hv, hlast⟩ := run_append_iff.mp hrun
      obtain ⟨u, hu, hlast⟩ := run_cons_iff.mp hlast
      obtain rfl := Option.some.inj hlast
      exact Option.some.inj hu ▸ (ih hv).next e

end Runs

/-! ### Requests with one key -/

theorem notMem_acceptVariant (q : Request) : '|' ∉ q.acceptVariant := by
  rw [Request.acceptVariant]
  split <;> decide

/-- What is before a separator, if it has none itself. -/
theorem eq_of_append_cons_eq {a a' b b' : Text} (ha : '|' ∉ a) (ha' : '|' ∉ a')
    (h : a ++ '|' :: b = a' ++ '|' :: b') : a = a' ∧ b = b' := by
  have hcut := Rust.splitOnce_append b ha
  rw [h, Rust.splitOnce_append b' ha'] at hcut
  exact ⟨(Prod.ext_iff.mp (Option.some.inj hcut)).1.symm, (Prod.ext_iff.mp (Option.some.inj hcut)).2.symm⟩

/-- **Requests share a key** only if they are for the same thing, when their methods and hosts have no
separator. -/
theorem cacheKey_eq_iff {q q' : Request} (hq : q.Plain) (hq' : q'.Plain) : q.cacheKey = q'.cacheKey ↔
    q.method = q'.method ∧ q.host = q'.host ∧ q.path = q'.path ∧ q.acceptVariant = q'.acceptVariant := by
  constructor
  · intro h
    have htexts := asBytes_injective h
    simp only [List.append_assoc, List.cons_append] at htexts
    obtain ⟨hmethod, hrest⟩ := eq_of_append_cons_eq hq.1 hq'.1 htexts
    obtain ⟨hhost, hrest⟩ := eq_of_append_cons_eq hq.2 hq'.2 hrest
    -- the variant is behind the last separator
    have hreverse := congrArg List.reverse hrest
    rw [List.reverse_append, List.reverse_append, List.reverse_cons, List.reverse_cons, List.append_assoc,
      List.append_assoc, List.singleton_append, List.singleton_append] at hreverse
    obtain ⟨hvariant, hpath⟩ := eq_of_append_cons_eq (mt List.mem_reverse.mp (notMem_acceptVariant q))
      (mt List.mem_reverse.mp (notMem_acceptVariant q')) hreverse
    exact ⟨hmethod, hhost, List.reverse_injective hpath, List.reverse_injective hvariant⟩
  · rintro ⟨hmethod, hhost, hpath, hvariant⟩
    rw [Request.cacheKey, Request.cacheKey, hmethod, hhost, hpath, hvariant]

theorem cacheKey_ne_nil (q : Request) : q.cacheKey ≠ [] := by
  intro h
  have htext : q.method ++ '|' :: q.host ++ '|' :: q.path ++ '|' :: q.acceptVariant = [] :=
    asBytes_injective h
  simp at htext

/-- An image in two pieces. -/
def imageEvents : List Event :=
  [.request 0 (some ⟨"GET".toList, "/a".toList, "Host: h\r\n".toList⟩),
    .responseHeaders 0 ⟨200, "Content-Type: image/png\r\n".toList, [], some 2⟩,
    .payload 0 [1], .payload 0 [2], .messageEnd 0 .response 10]

end CorexManager.DiskCache
