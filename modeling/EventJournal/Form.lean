import EventJournal.Checkpoint
import EventJournal.Event
import EventJournal.Json.Shape
import EventJournal.Stream

/-!
# The JSON forms of the records

The six records that leave the library as JSON, with the names of their fields there.
-/

namespace EventJournal

open Json (Kind Datum Recorded)

instance : Recorded Draft where
  shape := [("event_id", .uuid), ("type_tag", .text), ("version", .text),
    ("timestamp", .instant), ("payload", .bytes)]
  toData d := [.uuid d.id, .text d.tag, .text d.version, .instant d.time, .bytes d.payload]
  ofData?
    | [.uuid id, .text tag, .text version, .instant time, .bytes payload] =>
      some { id, tag, version, time, payload }
    | _ => none

instance : Recorded Event where
  shape := [("global_seq", .word), ("stream_id", .uuid), ("stream_seq", .word),
    ("event_id", .uuid), ("timestamp", .instant), ("type_tag", .text), ("version", .text),
    ("payload", .bytes)]
  toData e := [.word e.position, .uuid e.stream, .word e.index, .uuid e.id, .instant e.time,
    .text e.tag, .text e.version, .bytes e.payload]
  ofData?
    | [.word position, .uuid stream, .word index, .uuid id, .instant time, .text tag,
        .text version, .bytes payload] =>
      some { position, stream, index, id, time, tag, version, payload }
    | _ => none

instance : Recorded Head where
  shape := [("stream_id", .uuid), ("current_version", .word), ("type_tag", .text)]
  toData h := [.uuid h.stream, .word h.version, .text h.kind]
  ofData?
    | [.uuid stream, .word version, .text kind] => some { stream, version, kind }
    | _ => none

instance : Recorded Snapshot where
  shape := [("stream_id", .uuid), ("version", .word), ("payload", .bytes)]
  toData s := [.uuid s.stream, .word s.version, .bytes s.payload]
  ofData?
    | [.uuid stream, .word version, .bytes payload] => some { stream, version, payload }
    | _ => none

instance : Recorded Counter where
  shape := [("name", .text), ("value", .word)]
  toData c := [.text c.name, .word c.value]
  ofData?
    | [.text name, .word value] => some { name, value }
    | _ => none

instance : Recorded Checkpoint where
  shape := [("pipeline_name", .text), ("last_processed_event_id", .uuid),
    ("insertion_order", .word), ("created_at", .instant)]
  toData c := [.text c.pipeline, .uuid c.event, .word c.order, .instant c.time]
  ofData?
    | [.text pipeline, .uuid event, .word order, .instant time] =>
      some { pipeline, event, order, time }
    | _ => none

end EventJournal
