import Sfz.Opcode.Registry

namespace Sfz

namespace Row

def of (name : String) (type : RowType) (version : Version) : Row :=
  { name := name, type := type, version := some version }

def within (r : Row) (min max : Binary64) : Row :=
  { r with min := some min, max := some max }

def atLeast (r : Row) (min : Binary64) : Row :=
  { r with min := some min }

def oneOf (r : Row) (options : List String) : Row :=
  { r with options := options }

def slot (r : Row) (letter : String) (min max : Nat) : Row :=
  { r with index := r.index ++ [(letter, ⟨min, max⟩)] }

def spelled (r : Row) (spellings : List String) : Row :=
  { r with spellings := spellings }

def aliased (r : Row) (aliases : List String) : Row :=
  { r with aliases := aliases }

def modulating (r : Row) (target : String) : Row :=
  { r with modulates := some target }

end Row

namespace Standard

open Row

def samplePlayback : List Row := [
  of "sample" .path .v1,
  of "count" .integer .v1 |>.within 0 4294967295,
  of "delay" .float .v1 |>.within 0 100,
  of "delay_ccN" .float .v1 |>.within 0 100 |>.spelled ["_cc", "_oncc"],
  of "delay_random" .float .v1 |>.within 0 100,
  of "end" .integer .v1 |>.within (-1) 4294967295,
  of "loop_mode" .enum .v1 |>.oneOf ["no_loop", "one_shot", "loop_continuous", "loop_sustain"]
    |>.aliased ["loopmode"],
  of "loop_start" .integer .v1 |>.within 0 4294967295 |>.aliased ["loopstart"],
  of "loop_end" .integer .v1 |>.within 0 4294967295 |>.aliased ["loopend"],
  of "offset" .integer .v1 |>.within 0 4294967295,
  of "offset_ccN" .integer .v1 |>.within 0 4294967295 |>.spelled ["_cc", "_oncc"],
  of "offset_random" .integer .v1 |>.within 0 4294967295,
  of "sync_beats" .float .v1 |>.within 0 32,
  of "sync_offset" .float .v1 |>.within 0 32,
  of "group" .integer .v1 |>.within 0 4294967295,
  of "off_by" .integer .v1 |>.within 0 4294967295,
  of "off_mode" .enum .v1 |>.oneOf ["fast", "normal", "time"],
  of "output" .integer .v1 |>.within 0 1024,
  of "loop_crossfade" .float .v2 |>.atLeast 0,
  of "delay_samples" .integer .v2 |>.atLeast 0,
  of "delay_samples_onccN" .integer .v2,
  of "md5" .string .aria]

def inputControls : List Row := [
  of "key" .note .v1 |>.within 0 127,
  of "lokey" .note .v1 |>.within (-1) 127,
  of "hikey" .note .v1 |>.within (-1) 127,
  of "lovel" .integer .v1 |>.within 0 127,
  of "hivel" .integer .v1 |>.within 0 127,
  of "lochan" .integer .v1 |>.within 1 16,
  of "hichan" .integer .v1 |>.within 1 16,
  of "loccN" .integer .v1 |>.within 0 127,
  of "hiccN" .integer .v1 |>.within 0 127,
  of "lobend" .integer .v1 |>.within (-8192) 8192,
  of "hibend" .integer .v1 |>.within (-8192) 8192,
  of "sw_lokey" .note .v1 |>.within 0 127,
  of "sw_hikey" .note .v1 |>.within 0 127,
  of "sw_last" .note .v1 |>.within 0 127,
  of "sw_down" .note .v1 |>.within 0 127,
  of "sw_up" .note .v1 |>.within 0 127,
  of "sw_previous" .note .v1 |>.within 0 127,
  of "sw_vel" .enum .v1 |>.oneOf ["current", "previous"],
  of "sw_default" .note .v2 |>.within 0 127,
  of "lobpm" .float .v1 |>.within 0 500,
  of "hibpm" .float .v1 |>.within 0 500,
  of "lochanaft" .integer .v1 |>.within 0 127,
  of "hichanaft" .integer .v1 |>.within 0 127,
  of "lopolyaft" .integer .v1 |>.within 0 127,
  of "hipolyaft" .integer .v1 |>.within 0 127,
  of "lorand" .float .v1 |>.within 0 1,
  of "hirand" .float .v1 |>.within 0 1,
  of "seq_length" .integer .v1 |>.within 1 100,
  of "seq_position" .integer .v1 |>.within 1 100,
  of "trigger" .enum .v1 |>.oneOf ["attack", "release", "first", "legato", "release_key"],
  of "on_loccN" .integer .v1 |>.within 0 127,
  of "on_hiccN" .integer .v1 |>.within 0 127,
  of "loprog" .integer .v2 |>.within 0 127,
  of "hiprog" .integer .v2 |>.within 0 127,
  of "lotimer" .float .v2 |>.atLeast 0,
  of "hitimer" .float .v2 |>.atLeast 0,
  of "start_loccN" .integer .v2 |>.within 0 127,
  of "start_hiccN" .integer .v2 |>.within 0 127,
  of "stop_loccN" .integer .v2 |>.within 0 127,
  of "stop_hiccN" .integer .v2 |>.within 0 127,
  of "reverse_loccN" .integer .v2 |>.within 0 127,
  of "reverse_hiccN" .integer .v2 |>.within 0 127,
  of "sustain_sw" .enum .v2 |>.oneOf ["on", "off"],
  of "sostenuto_sw" .enum .v2 |>.oneOf ["on", "off"],
  of "rt_dead" .enum .v2 |>.oneOf ["on", "off"]]

def amplifier : List Row := [
  of "volume" .float .v1 |>.within (-144) 6,
  of "volume_onccN" .float .v2 |>.within (-144) 48 |>.spelled ["_oncc", "_cc"]
    |>.aliased ["gain_ccN"],
  of "pan" .float .v1 |>.within (-100) 100,
  of "pan_onccN" .float .v2 |>.within (-200) 200,
  of "position" .float .v1 |>.within (-100) 100,
  of "width" .float .v1 |>.within (-100) 100,
  of "amplitude" .float .aria |>.within 0 100,
  of "amplitude_onccN" .float .aria |>.within (-100) 100 |>.spelled ["_oncc", "_cc"]
    |>.modulating "amplitude",
  of "amplitude_curveccN" .integer .aria |>.within 0 255 |>.modulating "amplitude",
  of "amplitude_smoothccN" .integer .aria |>.within 0 100 |>.modulating "amplitude",
  of "amp_keycenter" .note .v1 |>.within 0 127,
  of "amp_keytrack" .float .v1 |>.within (-96) 12,
  of "amp_veltrack" .float .v1 |>.within (-100) 100,
  of "amp_velcurve_N" .float .v1 |>.within 0 1 |>.slot "N" 0 127,
  of "amp_random" .float .v1 |>.within 0 24,
  of "rt_decay" .float .v1 |>.within 0 200,
  of "xf_cccurve" .enum .v1 |>.oneOf ["gain", "power"],
  of "xf_keycurve" .enum .v1 |>.oneOf ["gain", "power"],
  of "xf_velcurve" .enum .v1 |>.oneOf ["gain", "power"],
  of "xfin_loccN" .integer .v1 |>.within 0 127,
  of "xfin_hiccN" .integer .v1 |>.within 0 127,
  of "xfout_loccN" .integer .v1 |>.within 0 127,
  of "xfout_hiccN" .integer .v1 |>.within 0 127,
  of "xfin_lokey" .note .v1 |>.within 0 127,
  of "xfin_hikey" .note .v1 |>.within 0 127,
  of "xfout_lokey" .note .v1 |>.within 0 127,
  of "xfout_hikey" .note .v1 |>.within 0 127,
  of "xfin_lovel" .integer .v1 |>.within 0 127,
  of "xfin_hivel" .integer .v1 |>.within 0 127,
  of "xfout_lovel" .integer .v1 |>.within 0 127,
  of "xfout_hivel" .integer .v1 |>.within 0 127]

def equalizer : List Row := [
  of "eqN_bw" .float .v1 |>.within 0.001 4 |>.slot "N" 1 3,
  of "eqN_bwccX" .float .v1 |>.within (-4) 4 |>.slot "N" 1 3 |>.spelled ["cc", "_oncc"]
    |>.modulating "eqN_bw",
  of "eqN_freq" .float .v1 |>.within 0 30000 |>.slot "N" 1 3,
  of "eqN_freqccX" .float .v1 |>.within (-30000) 30000 |>.slot "N" 1 3 |>.spelled ["cc", "_oncc"]
    |>.modulating "eqN_freq",
  of "eqN_vel2freq" .float .v1 |>.within (-30000) 30000 |>.slot "N" 1 3,
  of "eqN_gain" .float .v1 |>.within (-96) 24 |>.slot "N" 1 3,
  of "eqN_gainccX" .float .v1 |>.within (-96) 24 |>.slot "N" 1 3 |>.spelled ["cc", "_oncc"]
    |>.modulating "eqN_gain",
  of "eqN_vel2gain" .float .v1 |>.within (-96) 24 |>.slot "N" 1 3]

def filter : List Row := [
  of "cutoff" .float .v1 |>.atLeast 0,
  of "cutoff_ccN" .integer .v1 |>.within (-9600) 9600 |>.spelled ["_cc", "_oncc"]
    |>.modulating "cutoff",
  of "cutoff_curveccN" .integer .v2 |>.within 0 255 |>.modulating "cutoff",
  of "cutoff_chanaft" .integer .v1 |>.within (-9600) 9600,
  of "cutoff_polyaft" .integer .v1 |>.within (-9600) 9600,
  of "fil_keytrack" .integer .v1 |>.within 0 1200,
  of "fil_keycenter" .note .v1 |>.within 0 127,
  of "fil_random" .integer .v1 |>.within 0 9600,
  of "fil_type" .enum .v1 |>.oneOf ["lpf_1p", "hpf_1p", "lpf_2p", "hpf_2p", "bpf_2p", "brf_2p"]
    |>.aliased ["filtype"],
  of "fil_veltrack" .integer .v1 |>.within (-9600) 9600,
  of "resonance" .float .v1 |>.within 0 40,
  of "resonance_onccN" .float .v2 |>.within (-40) 40 |>.spelled ["_oncc", "_cc"]
    |>.modulating "resonance",
  of "cutoff2" .float .v2 |>.atLeast 0,
  of "cutoff2_onccN" .integer .v2 |>.within (-9600) 9600 |>.spelled ["_oncc", "_cc"]
    |>.modulating "cutoff2",
  of "cutoff2_curveccN" .integer .v2 |>.within 0 255 |>.modulating "cutoff2",
  of "cutoff2_smoothccN" .integer .v2 |>.within 0 9600 |>.modulating "cutoff2",
  of "cutoff2_stepccN" .integer .v2 |>.within 0 9600 |>.modulating "cutoff2",
  of "fil2_keycenter" .note .v2 |>.within 0 127,
  of "fil2_keytrack" .integer .v2 |>.within 0 1200,
  of "fil2_type" .enum .v2
    |>.oneOf ["lpf_1p", "hpf_1p", "lpf_2p", "hpf_2p", "bpf_2p", "brf_2p", "bpf_1p", "brf_1p",
      "apf_1p", "lpf_2p_sv", "hpf_2p_sv", "bpf_2p_sv", "brf_2p_sv", "pkf_2p", "lpf_4p", "hpf_4p",
      "lpf_6p", "hpf_6p", "comb", "pink"],
  of "fil2_veltrack" .integer .v2 |>.within (-9600) 9600,
  of "resonance2" .float .v2 |>.within 0 40,
  of "resonance2_onccN" .float .v2 |>.within (-40) 40 |>.spelled ["_oncc", "_cc"]
    |>.modulating "resonance2",
  of "resonance2_curveccN" .integer .v2 |>.within 0 255 |>.modulating "resonance2",
  of "resonance2_smoothccN" .float .v2 |>.within 0 100 |>.modulating "resonance2",
  of "resonance2_stepccN" .float .v2 |>.within 0 40 |>.modulating "resonance2"]

def pitch : List Row := [
  of "bend_up" .integer .v1 |>.within (-9600) 9600 |>.aliased ["bendup"],
  of "bend_down" .integer .v1 |>.within (-9600) 9600 |>.aliased ["benddown"],
  of "bend_step" .integer .v1 |>.within 1 1200,
  of "bend_stepup" .integer .v2 |>.within 1 1200,
  of "bend_stepdown" .integer .v2 |>.within 1 1200,
  of "pitch_keycenter" .note .v1 |>.within (-127) 127,
  of "pitch_keytrack" .integer .v1 |>.within (-1200) 1200,
  of "pitch_random" .integer .v1 |>.within 0 9600,
  of "pitch_veltrack" .integer .v1 |>.within (-9600) 9600,
  of "pitch_onccN" .integer .v2 |>.within (-9600) 9600 |>.spelled ["_oncc", "_cc"]
    |>.modulating "tune",
  of "pitch_curveccN" .integer .v2 |>.within 0 255 |>.modulating "tune",
  of "pitch_smoothccN" .integer .v2 |>.within 0 100 |>.modulating "tune",
  of "transpose" .integer .v1 |>.within (-127) 127,
  of "tune" .integer .v1 |>.within (-2400) 2400 |>.aliased ["pitch"]]

def amplifierEnvelope : List Row := [
  of "ampeg_attack" .float .v1 |>.within 0 100,
  of "ampeg_attackccN" .float .v1 |>.within (-100) 100 |>.spelled ["cc", "_oncc"]
    |>.modulating "ampeg_attack",
  of "ampeg_attack_curveccN" .integer .aria |>.within 0 255 |>.modulating "ampeg_attack",
  of "ampeg_vel2attack" .float .v1 |>.within (-100) 100,
  of "ampeg_decay" .float .v1 |>.within 0 100,
  of "ampeg_decayccN" .float .v1 |>.within (-100) 100 |>.spelled ["cc", "_oncc"]
    |>.modulating "ampeg_decay",
  of "ampeg_decay_curveccN" .integer .aria |>.within 0 255 |>.modulating "ampeg_decay",
  of "ampeg_vel2decay" .float .v1 |>.within (-100) 100,
  of "ampeg_delay" .float .v1 |>.within 0 100,
  of "ampeg_delayccN" .float .v1 |>.within (-100) 100 |>.spelled ["cc", "_oncc"]
    |>.modulating "ampeg_delay",
  of "ampeg_vel2delay" .float .v1 |>.within (-100) 100,
  of "ampeg_hold" .float .v1 |>.within 0 100,
  of "ampeg_holdccN" .float .v1 |>.within (-100) 100 |>.spelled ["cc", "_oncc"]
    |>.modulating "ampeg_hold",
  of "ampeg_vel2hold" .float .v1 |>.within (-100) 100,
  of "ampeg_release" .float .v1 |>.within 0 100,
  of "ampeg_releaseccN" .float .v1 |>.within (-100) 100 |>.spelled ["cc", "_oncc"]
    |>.modulating "ampeg_release",
  of "ampeg_release_curveccN" .integer .aria |>.within 0 255 |>.modulating "ampeg_release",
  of "ampeg_vel2release" .float .v1 |>.within (-100) 100,
  of "ampeg_sustain" .float .v1 |>.within 0 100,
  of "ampeg_sustainccN" .float .v1 |>.within (-100) 100 |>.spelled ["cc", "_oncc"]
    |>.modulating "ampeg_sustain",
  of "ampeg_sustain_curveccN" .integer .aria |>.within 0 255 |>.modulating "ampeg_sustain",
  of "ampeg_vel2sustain" .float .v1 |>.within (-100) 100,
  of "ampeg_start" .float .v1 |>.within 0 100,
  of "ampeg_startccN" .float .v1 |>.within (-100) 100 |>.spelled ["cc", "_oncc"]
    |>.modulating "ampeg_start"]

def filterEnvelope : List Row := [
  of "fileg_attack" .float .v1 |>.within 0 100,
  of "fileg_vel2attack" .float .v1 |>.within (-100) 100,
  of "fileg_decay" .float .v1 |>.within 0 100,
  of "fileg_vel2decay" .float .v1 |>.within (-100) 100,
  of "fileg_delay" .float .v1 |>.within 0 100,
  of "fileg_vel2delay" .float .v1 |>.within (-100) 100,
  of "fileg_depth" .integer .v1 |>.within (-12000) 12000,
  of "fileg_vel2depth" .integer .v1 |>.within (-12000) 12000,
  of "fileg_hold" .float .v1 |>.within 0 100,
  of "fileg_vel2hold" .float .v1 |>.within (-100) 100,
  of "fileg_release" .float .v1 |>.within 0 100,
  of "fileg_vel2release" .float .v1 |>.within (-100) 100,
  of "fileg_start" .float .v1 |>.within 0 100,
  of "fileg_sustain" .float .v1 |>.within 0 100,
  of "fileg_vel2sustain" .float .v1 |>.within (-100) 100]

def pitchEnvelope : List Row := [
  of "pitcheg_attack" .float .v1 |>.within 0 100,
  of "pitcheg_vel2attack" .float .v1 |>.within (-100) 100,
  of "pitcheg_decay" .float .v1 |>.within 0 100,
  of "pitcheg_vel2decay" .float .v1 |>.within (-100) 100,
  of "pitcheg_delay" .float .v1 |>.within 0 100,
  of "pitcheg_vel2delay" .float .v1 |>.within (-100) 100,
  of "pitcheg_depth" .integer .v1 |>.within (-12000) 12000,
  of "pitcheg_vel2depth" .integer .v1 |>.within (-12000) 12000,
  of "pitcheg_hold" .float .v1 |>.within 0 100,
  of "pitcheg_vel2hold" .float .v1 |>.within (-100) 100,
  of "pitcheg_release" .float .v1 |>.within 0 100,
  of "pitcheg_vel2release" .float .v1 |>.within (-100) 100,
  of "pitcheg_start" .float .v1 |>.within 0 100,
  of "pitcheg_sustain" .float .v1 |>.within 0 100,
  of "pitcheg_vel2sustain" .float .v1 |>.within (-100) 100]

def fixedLfos : List Row := [
  of "amplfo_delay" .float .v1 |>.within 0 100,
  of "amplfo_depth" .float .v1 |>.within (-10) 10,
  of "amplfo_depthccN" .float .v1 |>.within (-10) 10 |>.spelled ["cc", "_oncc"]
    |>.modulating "amplfo_depth",
  of "amplfo_depthchanaft" .float .v1 |>.within (-10) 10,
  of "amplfo_depthpolyaft" .float .v1 |>.within (-10) 10,
  of "amplfo_fade" .float .v1 |>.within 0 100,
  of "amplfo_freq" .float .v1 |>.within 0 20,
  of "amplfo_freqccN" .float .v1 |>.within (-200) 200 |>.spelled ["cc", "_oncc"]
    |>.modulating "amplfo_freq",
  of "amplfo_freqchanaft" .float .v1 |>.within (-200) 200,
  of "amplfo_freqpolyaft" .float .v1 |>.within (-200) 200,
  of "fillfo_delay" .float .v1 |>.within 0 100,
  of "fillfo_depth" .float .v1 |>.within (-1200) 1200,
  of "fillfo_depthccN" .float .v1 |>.within (-1200) 1200 |>.spelled ["cc", "_oncc"]
    |>.modulating "fillfo_depth",
  of "fillfo_depthchanaft" .float .v1 |>.within (-1200) 1200,
  of "fillfo_depthpolyaft" .float .v1 |>.within (-1200) 1200,
  of "fillfo_fade" .float .v1 |>.within 0 100,
  of "fillfo_freq" .float .v1 |>.within 0 20,
  of "fillfo_freqccN" .float .v1 |>.within (-200) 200 |>.spelled ["cc", "_oncc"]
    |>.modulating "fillfo_freq",
  of "fillfo_freqchanaft" .float .v1 |>.within (-200) 200,
  of "fillfo_freqpolyaft" .float .v1 |>.within (-200) 200,
  of "pitchlfo_delay" .float .v1 |>.within 0 100,
  of "pitchlfo_depth" .float .v1 |>.within (-1200) 1200,
  of "pitchlfo_depthccN" .float .v1 |>.within (-1200) 1200 |>.aliased ["pitchlfo_depth_onccN"]
    |>.modulating "pitchlfo_depth",
  of "pitchlfo_depthchanaft" .float .v1 |>.within (-1200) 1200,
  of "pitchlfo_depthpolyaft" .float .v1 |>.within (-1200) 1200,
  of "pitchlfo_fade" .float .v1 |>.within 0 100,
  of "pitchlfo_freq" .float .v1 |>.within 0 20,
  of "pitchlfo_freqccN" .float .v1 |>.within (-200) 200 |>.spelled ["cc", "_oncc"]
    |>.modulating "pitchlfo_freq",
  of "pitchlfo_freqchanaft" .float .v1 |>.within (-200) 200,
  of "pitchlfo_freqpolyaft" .float .v1 |>.within (-200) 200]

def effects : List Row := [
  of "effect1" .integer .v1 |>.within 0 100,
  of "effect2" .integer .v1 |>.within 0 100]

def flexEnvelopes : List Row := [
  of "egN_points" .integer .v2 |>.atLeast 0 |>.slot "N" 1 64,
  of "egN_timeX" .float .v2 |>.atLeast 0 |>.slot "N" 1 64 |>.slot "X" 0 64,
  of "egN_timeX_onccY" .float .v2 |>.slot "N" 1 64 |>.slot "X" 0 64 |>.modulating "egN_timeX",
  of "egN_levelX" .float .v2 |>.within (-1) 1 |>.slot "N" 1 64 |>.slot "X" 0 64,
  of "egN_levelX_onccY" .float .v2 |>.within (-1) 1 |>.slot "N" 1 64 |>.slot "X" 0 64
    |>.modulating "egN_levelX",
  of "egN_shapeX" .float .v2 |>.slot "N" 1 64 |>.slot "X" 0 64,
  of "egN_curveX" .integer .v2 |>.slot "N" 1 64 |>.slot "X" 0 64,
  of "egN_sustain" .integer .v2 |>.atLeast 0 |>.slot "N" 1 64,
  of "egN_loop" .integer .v2 |>.atLeast 0 |>.slot "N" 1 64,
  of "egN_loop_count" .integer .v2 |>.atLeast 0 |>.slot "N" 1 64,
  of "egN_volume" .float .v2 |>.slot "N" 1 64,
  of "egN_volume_onccX" .float .v2 |>.slot "N" 1 64 |>.modulating "egN_volume",
  of "egN_amplitude" .float .v2 |>.slot "N" 1 64,
  of "egN_amplitude_onccX" .float .v2 |>.slot "N" 1 64 |>.modulating "egN_amplitude",
  of "egN_pan" .float .v2 |>.slot "N" 1 64,
  of "egN_pan_onccX" .float .v2 |>.slot "N" 1 64 |>.modulating "egN_pan",
  of "egN_pan_curve" .integer .v2 |>.slot "N" 1 64,
  of "egN_pan_curveccX" .integer .v2 |>.slot "N" 1 64,
  of "egN_width" .float .v2 |>.slot "N" 1 64,
  of "egN_width_onccX" .float .v2 |>.slot "N" 1 64 |>.modulating "egN_width",
  of "egN_freq_lfoX" .float .v2 |>.slot "N" 1 64 |>.slot "X" 1 64,
  of "egN_depth_lfoX" .float .v2 |>.slot "N" 1 64 |>.slot "X" 1 64,
  of "egN_depthadd_lfoX" .float .v2 |>.slot "N" 1 64 |>.slot "X" 1 64,
  of "egN_pitch" .float .v2 |>.slot "N" 1 64,
  of "egN_pitch_onccX" .float .v2 |>.slot "N" 1 64 |>.modulating "egN_pitch",
  of "egN_cutoff" .float .v2 |>.slot "N" 1 64,
  of "egN_cutoff_onccX" .float .v2 |>.slot "N" 1 64 |>.modulating "egN_cutoff",
  of "egN_cutoff2" .float .v2 |>.slot "N" 1 64,
  of "egN_cutoff2_onccX" .float .v2 |>.slot "N" 1 64 |>.modulating "egN_cutoff2",
  of "egN_resonance" .float .v2 |>.slot "N" 1 64,
  of "egN_resonance_onccX" .float .v2 |>.slot "N" 1 64 |>.modulating "egN_resonance",
  of "egN_resonance2" .float .v2 |>.slot "N" 1 64,
  of "egN_resonance2_onccX" .float .v2 |>.slot "N" 1 64 |>.modulating "egN_resonance2",
  of "egN_eqXfreq" .float .v2 |>.slot "N" 1 64 |>.slot "X" 1 3,
  of "egN_eqXfreq_onccY" .float .v2 |>.slot "N" 1 64 |>.slot "X" 1 3 |>.modulating "egN_eqXfreq",
  of "egN_eqXbw" .float .v2 |>.slot "N" 1 64 |>.slot "X" 1 3,
  of "egN_eqXbw_onccY" .float .v2 |>.slot "N" 1 64 |>.slot "X" 1 3 |>.modulating "egN_eqXbw",
  of "egN_eqXgain" .float .v2 |>.slot "N" 1 64 |>.slot "X" 1 3,
  of "egN_eqXgain_onccY" .float .v2 |>.slot "N" 1 64 |>.slot "X" 1 3 |>.modulating "egN_eqXgain"]

def flexLfos : List Row := [
  of "lfoN_freq" .float .v2 |>.atLeast 0 |>.slot "N" 1 32,
  of "lfoN_freq_onccX" .float .v2 |>.slot "N" 1 32 |>.modulating "lfoN_freq",
  of "lfoN_freq_smoothccX" .float .v2 |>.atLeast 0 |>.slot "N" 1 32,
  of "lfoN_freq_stepccX" .float .v2 |>.atLeast 0 |>.slot "N" 1 32,
  of "lfoN_delay" .float .v2 |>.atLeast 0 |>.slot "N" 1 32,
  of "lfoN_delay_onccX" .float .v2 |>.slot "N" 1 32 |>.modulating "lfoN_delay",
  of "lfoN_fade" .float .v2 |>.atLeast 0 |>.slot "N" 1 32,
  of "lfoN_fade_onccX" .float .v2 |>.slot "N" 1 32 |>.modulating "lfoN_fade",
  of "lfoN_phase" .float .v2 |>.within 0 1 |>.slot "N" 1 32,
  of "lfoN_phase_onccX" .float .v2 |>.slot "N" 1 32 |>.modulating "lfoN_phase",
  of "lfoN_count" .integer .v2 |>.atLeast 0 |>.slot "N" 1 32,
  of "lfoN_wave" .integer .v2 |>.atLeast 0 |>.slot "N" 1 32,
  of "lfoN_steps" .integer .v2 |>.atLeast 0 |>.slot "N" 1 32,
  of "lfoN_stepX" .float .v2 |>.within (-100) 100 |>.slot "N" 1 32 |>.slot "X" 1 128,
  of "lfoN_smooth" .float .v2 |>.atLeast 0 |>.slot "N" 1 32,
  of "lfoN_smooth_onccX" .float .v2 |>.slot "N" 1 32 |>.modulating "lfoN_smooth",
  of "lfoN_volume" .float .v2 |>.slot "N" 1 32,
  of "lfoN_volume_onccX" .float .v2 |>.slot "N" 1 32 |>.modulating "lfoN_volume",
  of "lfoN_amplitude" .float .v2 |>.slot "N" 1 32,
  of "lfoN_amplitude_onccX" .float .v2 |>.slot "N" 1 32 |>.modulating "lfoN_amplitude",
  of "lfoN_pan" .float .v2 |>.slot "N" 1 32,
  of "lfoN_pan_onccX" .float .v2 |>.slot "N" 1 32 |>.modulating "lfoN_pan",
  of "lfoN_width" .float .v2 |>.slot "N" 1 32,
  of "lfoN_width_onccX" .float .v2 |>.slot "N" 1 32 |>.modulating "lfoN_width",
  of "lfoN_freq_lfoX" .float .v2 |>.slot "N" 1 32 |>.slot "X" 1 32,
  of "lfoN_depth_lfoX" .float .v2 |>.slot "N" 1 32 |>.slot "X" 1 32,
  of "lfoN_depthadd_lfoX" .float .v2 |>.slot "N" 1 32 |>.slot "X" 1 32,
  of "lfoN_pitch" .float .v2 |>.slot "N" 1 32,
  of "lfoN_pitch_onccX" .float .v2 |>.slot "N" 1 32 |>.modulating "lfoN_pitch",
  of "lfoN_cutoff" .float .v2 |>.slot "N" 1 32,
  of "lfoN_cutoff_onccX" .float .v2 |>.slot "N" 1 32 |>.modulating "lfoN_cutoff",
  of "lfoN_cutoff2" .float .v2 |>.slot "N" 1 32,
  of "lfoN_cutoff2_onccX" .float .v2 |>.slot "N" 1 32 |>.modulating "lfoN_cutoff2",
  of "lfoN_resonance" .float .v2 |>.slot "N" 1 32,
  of "lfoN_resonance_onccX" .float .v2 |>.slot "N" 1 32 |>.modulating "lfoN_resonance",
  of "lfoN_resonance2" .float .v2 |>.slot "N" 1 32,
  of "lfoN_resonance2_onccX" .float .v2 |>.slot "N" 1 32 |>.modulating "lfoN_resonance2",
  of "lfoN_eqXfreq" .float .v2 |>.slot "N" 1 32 |>.slot "X" 1 3,
  of "lfoN_eqXfreq_onccY" .float .v2 |>.slot "N" 1 32 |>.slot "X" 1 3 |>.modulating "lfoN_eqXfreq",
  of "lfoN_eqXbw" .float .v2 |>.slot "N" 1 32 |>.slot "X" 1 3,
  of "lfoN_eqXbw_onccY" .float .v2 |>.slot "N" 1 32 |>.slot "X" 1 3 |>.modulating "lfoN_eqXbw",
  of "lfoN_eqXgain" .float .v2 |>.slot "N" 1 32 |>.slot "X" 1 3,
  of "lfoN_eqXgain_onccY" .float .v2 |>.slot "N" 1 32 |>.slot "X" 1 3 |>.modulating "lfoN_eqXgain"]

def controlHeader : List Row := [
  of "default_path" .string .v2,
  of "note_offset" .integer .v2 |>.within (-127) 127,
  of "octave_offset" .integer .v2 |>.within (-10) 10,
  of "set_ccN" .float .v2 |>.within 0 127,
  of "set_hdccN" .float .aria |>.within 0 1,
  of "label_ccN" .string .aria,
  of "label_keyN" .string .aria |>.slot "N" 0 127,
  of "hint_ram_based" .integer .aria |>.within 0 1,
  of "polyphony" .integer .v2 |>.atLeast 0,
  of "note_polyphony" .integer .v2 |>.atLeast 0]

def curves : List Row := [
  of "curve_index" .integer .v2 |>.within 0 255,
  of "vN" .float .v2 |>.within (-1) 1 |>.slot "N" 0 127]

def labelsAndAriaExtras : List Row := [
  of "global_label" .string .aria,
  of "master_label" .string .aria,
  of "group_label" .string .aria,
  of "region_label" .string .aria,
  of "sw_label" .string .aria,
  of "varNN_mod" .enum .aria |>.oneOf ["add", "mult"] |>.slot "N" 0 99,
  of "varNN_onccX" .float .aria |>.slot "N" 0 99,
  of "waveguide" .enum .linuxsampler |>.oneOf ["on", "off"],
  of "sample_quality" .integer .v2 |>.within 1 10,
  of "direction" .enum .v2 |>.oneOf ["forward", "reverse"]]

end Standard

def Table.standard : Table :=
  ⟨⟨0, 255⟩,
    Standard.samplePlayback ++ Standard.inputControls ++ Standard.amplifier ++
    Standard.equalizer ++ Standard.filter ++ Standard.pitch ++ Standard.amplifierEnvelope ++
    Standard.filterEnvelope ++ Standard.pitchEnvelope ++ Standard.fixedLfos ++ Standard.effects ++
    Standard.flexEnvelopes ++ Standard.flexLfos ++ Standard.controlHeader ++ Standard.curves ++
    Standard.labelsAndAriaExtras⟩

def Registry.standard : Except TableError Registry :=
  Registry.build .standard

end Sfz
